import Space2.BucketQueue.Runs

/-!
# Layout trees and their dirt

A node waits for an update in a queue of its root, at its depth, and while it has no
root in a flag of its own. Changing the root of a node walks the nodes below it.
Walks that do not end have no result; the fuel bounds their length.
-/
namespace Space2.Layout

open Space2.BucketQueue

inductive Kind
  | measure
  | layout
  deriving DecidableEq

/-- The flags `measure-dirty` and `layout-dirty` are one function of the kind. -/
structure Node where
  parent : Option ℕ
  children : List ℕ
  root : Option ℕ
  depth : Option ℕ
  isDirty : Kind → Bool

/-- Nodes and layout roots, with the queues `measure-dirt` and `layout-dirt` of each root. -/
structure Forest where
  nodes : ℕ → Node
  dirt : ℕ → Kind → Queue ℕ ℕ

/-! ## Queues between updates -/

def enqueue (q : Queue ℕ ℕ) (node : ℕ) (depth : Option ℕ) : Queue ℕ ℕ :=
  (q.enqueue numbers node depth).toOption.getD q

def remove (q : Queue ℕ ℕ) (node : ℕ) : Queue ℕ ℕ := (q.remove numbers node).toOption.getD q

/-- The nodes that `iterate` gives when its callback leaves the queue alone. -/
def members (q : Queue ℕ ℕ) : List ℕ := q.depths.flatMap q.buckets

structure Ready (q : Queue ℕ ℕ) : Prop where
  consistent : Consistent q
  inactive : q.activeDepth = none

namespace Forest

def setNode (s : Forest) (node : ℕ) (value : Node) : Forest :=
  { s with nodes := Function.update s.nodes node value }

def setDirt (s : Forest) (root : ℕ) (kind : Kind) (q : Queue ℕ ℕ) : Forest :=
  { s with dirt := Function.update s.dirt root (Function.update (s.dirt root) kind q) }

def queued (s : Forest) (root : ℕ) (kind : Kind) (node : ℕ) : Option ℕ := (s.dirt root kind).lookup node

/-! ## Roots -/

/-- The depth of a node once it has the root. -/
def depthUnder (s : Forest) (root : Option ℕ) (node : ℕ) : Option ℕ :=
  root.map fun _ => (s.nodes node).parent.elim 0 fun parent => (s.nodes parent).depth.getD 0 + 1

/-- Moves the dirt of a node from its flag to the queue. -/
def transfer (root node : ℕ) (kind : Kind) (s : Forest) : Forest :=
  if (s.nodes node).isDirty kind = true then
    (s.setDirt root kind (enqueue (s.dirt root kind) node (s.nodes node).depth)).setNode node
      { s.nodes node with isDirty := Function.update (s.nodes node).isDirty kind false }
  else s

def discard (root node : ℕ) (kind : Kind) (s : Forest) : Forest :=
  s.setDirt root kind (remove (s.dirt root kind) node)

/-- What `set-root` does to one node. -/
def visit (root : Option ℕ) (node : ℕ) (s : Forest) : Forest :=
  let oldRoot := (s.nodes node).root
  let s := s.setNode node { s.nodes node with root := root, depth := s.depthUnder root node }
  match root, oldRoot with
  | some root, _ => (s.transfer root node .measure).transfer root node .layout
  | none, some oldRoot => (s.discard oldRoot node .measure).discard oldRoot node .layout
  | none, none => s

def setRootFrom (root : Option ℕ) : ℕ → List ℕ → Forest → Option Forest
  | _, [], s => some s
  | 0, _ :: _, _ => none
  | fuel + 1, node :: stack, s => setRootFrom root fuel ((s.nodes node).children.reverse ++ stack) (s.visit root node)

def setRoot (fuel : ℕ) (node : ℕ) (root : Option ℕ) (s : Forest) : Option Forest :=
  setRootFrom root fuel [node] s

/-! ## Children -/

def setParent (s : Forest) (child : ℕ) (parent : Option ℕ) : Forest :=
  s.setNode child { s.nodes child with parent := parent }

def setChildList (s : Forest) (parent : ℕ) (children : List ℕ) : Forest :=
  s.setNode parent { s.nodes parent with children := children }

def addChild (fuel : ℕ) (parent child : ℕ) (s : Forest) : Option Forest := do
  let s ← (s.setParent child (some parent)).setRoot fuel child (s.nodes parent).root
  pure (s.setChildList parent ((s.nodes parent).children ++ [child]))

/-- An index without a child raises, and nothing is changed. -/
def removeChild (fuel : ℕ) (parent index : ℕ) (s : Forest) : Option Forest :=
  match (s.nodes parent).children[index]? with
  | none => some s
  | some child => do
    let s ← (s.setParent child none).setRoot fuel child none
    pure (s.setChildList parent ((s.nodes parent).children.eraseIdx index))

/-! ## Marking and updating -/

def mark (kind : Kind) (node : ℕ) (s : Forest) : Forest :=
  match (s.nodes node).root with
  | some root => s.setDirt root kind (enqueue (s.dirt root kind) node (s.nodes node).depth)
  | none =>
    s.setNode node { s.nodes node with isDirty := Function.update (s.nodes node).isDirty kind true }

/-- The topmost ancestor of a node. -/
def top (s : Forest) : ℕ → ℕ → Option ℕ
  | fuel, node =>
    match (s.nodes node).parent, fuel with
    | none, _ => some node
    | some _, 0 => none
    | some parent, fuel + 1 => top s fuel parent

/-- The measure pass: the topmost ancestors that were measured, the last one first. -/
def measureFrom (fuel root : ℕ) : List ℕ → List ℕ → Forest → Option (List ℕ × Forest)
  | [], measured, s => some (measured, s)
  | node :: rest, measured, s =>
    match s.top fuel node with
    | none => none
    | some n =>
      if n ∈ measured then measureFrom fuel root rest measured s
      else
        measureFrom fuel root rest (n :: measured)
          (s.setDirt root .layout (enqueue (s.dirt root .layout) n (s.nodes n).depth))

/-- What an update processed. -/
structure Processed where
  measured : List ℕ
  laidOut : List ℕ

/-- A layouter may lay out nodes below its own, which takes them off the queue. -/
def update (fuel root : ℕ) (s : Forest) : Option (Processed × Forest) := do
  let (measured, s) ← measureFrom fuel root (members (s.dirt root .measure)) [] s
  let s := s.setDirt root .measure (s.dirt root .measure).clear
  pure (⟨measured, members (s.dirt root .layout)⟩, s.setDirt root .layout (s.dirt root .layout).clear)

end Forest

/-! ## Runs -/

inductive Move
  | addChild (parent child : ℕ)
  | removeChild (parent index : ℕ)
  | setRoot (node : ℕ) (root : Option ℕ)

def Move.perform (fuel : ℕ) (s : Forest) : Move → Option Forest
  | .addChild parent child => s.addChild fuel parent child
  | .removeChild parent index => s.removeChild fuel parent index
  | .setRoot node root => s.setRoot fuel node root

inductive Action
  | move (move : Move)
  | setChildren (parent : ℕ) (children : List ℕ)
  | mark (kind : Kind) (node : ℕ)
  | update (root : ℕ)

/-- `set-children` removes the children from the last to the first, and adds the new ones. -/
def setChildrenMoves (s : Forest) (parent : ℕ) (children : List ℕ) : List Move :=
  (List.range (s.nodes parent).children.length).reverse.map (.removeChild parent) ++
    children.map (.addChild parent)

/-- The nodes that were marked and not processed since. -/
structure World where
  forest : Forest
  awaiting : Kind → Set ℕ

/-- A node is processed with its topmost ancestor when it is measured. -/
def Forest.Processed.Covers (processed : Forest.Processed) (s : Forest) (node : ℕ) : Kind → Prop
  | .measure => ∃ fuel, ∃ n ∈ processed.measured, s.top fuel node = some n
  | .layout => node ∈ processed.laidOut

def World.perform (fuel : ℕ) (w : World) : Action → Option World
  | .move move => (move.perform fuel w.forest).map fun s => ⟨s, w.awaiting⟩
  | .setChildren parent children =>
    ((setChildrenMoves w.forest parent children).foldlM (Move.perform fuel) w.forest).map fun s => ⟨s, w.awaiting⟩
  | .mark kind node =>
    some ⟨w.forest.mark kind node, Function.update w.awaiting kind (insert node (w.awaiting kind))⟩
  | .update root =>
    (w.forest.update fuel root).map fun result =>
      ⟨result.2, fun kind => {node ∈ w.awaiting kind | ¬ result.1.Covers w.forest node kind}⟩

def start : World where
  forest := ⟨fun _ => ⟨none, [], none, none, fun _ => false⟩, fun _ _ => .fresh none⟩
  awaiting _ := ∅

end Space2.Layout
