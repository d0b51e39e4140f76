import InferenceCluster.Lib.PyDict
import InferenceCluster.Lib.Bisect
import InferenceCluster.Lib.Firsts
import Mathlib.Data.Prod.Lex
import Mathlib.Data.String.Basic

/-! The consistent hash ring of `router/hash_ring.py`. `digest` stands for the integer
value of the md5 hex digest, so that `hash` is any function into `[0, 2^32)`. -/

namespace InferenceCluster

structure Node where
  nodeId : String
  host : String
  port : ℕ
  weight : ℤ := 1
  deriving DecidableEq

def Node.address (n : Node) : String := "http://" ++ n.host ++ ":" ++ toString n.port

/-- A ring entry, the Python tuple `(position, node_id)`. -/
structure VNode where
  pos : ℕ
  nodeId : String
  deriving DecidableEq

/-- Tuples compare lexicographically, strings by code points. -/
instance : LinearOrder VNode :=
  LinearOrder.lift' (fun e : VNode => toLex (e.pos, e.nodeId)) fun a b h => by
    cases a
    cases b
    simpa using h

structure ConsistentHashRing where
  vnodesPerNode : ℤ
  ring : List VNode
  nodes : PyDict String Node

namespace ConsistentHashRing

variable (digest : String → ℕ)

def hash (key : String) : ℕ := digest key % 2 ^ 32

def init (vnodesPerNode : ℤ) : ConsistentHashRing := ⟨vnodesPerNode, [], PyDict.empty⟩

/-- The `i`-th virtual node of a node id. -/
def vnode (nodeId : String) (i : ℕ) : VNode :=
  ⟨hash digest (nodeId ++ ":vnode:" ++ toString i), nodeId⟩

/-- The virtual nodes of `node`: one for every `i in range(vnodes_per_node * weight)`. -/
def vnodes (vnodesPerNode : ℤ) (node : Node) : List VNode :=
  (List.range (vnodesPerNode * node.weight).toNat).map (vnode digest node.nodeId)

def addNode (r : ConsistentHashRing) (node : Node) : ConsistentHashRing :=
  if r.nodes.contains node.nodeId then r
  else
    { r with
      nodes := r.nodes.set node.nodeId node
      ring := (vnodes digest r.vnodesPerNode node).foldl Bisect.insort r.ring }

/-- The entries to drop are recomputed from the stored node, its weight included. -/
def removeNode (r : ConsistentHashRing) (nodeId : String) : ConsistentHashRing :=
  match r.nodes.get? nodeId with
  | none => r
  | some node =>
    let toRemove :=
      (List.range (r.vnodesPerNode * node.weight).toNat).map (vnode digest nodeId)
    { r with
      nodes := r.nodes.pop nodeId
      ring := r.ring.filter fun x => x ∉ toRemove }

/-- Where the walk of a key starts: `bisect_left(self._ring, (pos, ""))`. -/
def start (r : ConsistentHashRing) (key : String) : ℕ :=
  Bisect.bisectLeft r.ring ⟨hash digest key, ""⟩

def getNode (r : ConsistentHashRing) (key : String) :
    Except (PyDict.KeyError String) (Option Node) :=
  match r.ring with
  | [] => .ok none
  | e :: _ =>
    let idx := r.start digest key
    let idx := if r.ring.length ≤ idx then 0 else idx
    (r.nodes.getItem (r.ring.getD idx e).nodeId).map some

/-- The loop of `get_nodes_for_key` over the node ids met, with its `seen` set and its
`result`; it stops as soon as `result` holds `n` nodes. -/
def walk (nodes : PyDict String Node) (n : ℕ) :
    List String → List String → List Node → Except (PyDict.KeyError String) (List Node)
  | [], _, result => .ok result
  | nodeId :: rest, seen, result =>
    if nodeId ∈ seen then
      if result.length = n then .ok result else walk nodes n rest seen result
    else do
      let node ← nodes.getItem nodeId
      let result := result ++ [node]
      if result.length = n then .ok result else walk nodes n rest (nodeId :: seen) result

def getNodesForKey (r : ConsistentHashRing) (key : String) (n : ℕ) :
    Except (PyDict.KeyError String) (List Node) :=
  if r.ring = [] then .ok []
  else walk r.nodes n ((r.ring.clockwise (r.start digest key)).map VNode.nodeId) [] []

/-- All members in the order in which the walk of `key` meets them. -/
def order (r : ConsistentHashRing) (key : String) :
    Except (PyDict.KeyError String) (List Node) := r.getNodesForKey digest key r.nodes.size

/-! ### Histories -/

inductive Op where
  | addNode (node : Node)
  | removeNode (nodeId : String)

def apply (r : ConsistentHashRing) : Op → ConsistentHashRing
  | .addNode node => r.addNode digest node
  | .removeNode nodeId => r.removeNode digest nodeId

/-- The ring after a history of calls on a new ring. -/
def run (vnodesPerNode : ℤ) (ops : List Op) : ConsistentHashRing :=
  ops.foldl (apply digest) (init vnodesPerNode)

end ConsistentHashRing

end InferenceCluster
