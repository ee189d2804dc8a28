/-!
# Node ids

A document numbers its nodes in the order of creation. This file fixes the number and its text:

* an id is a 32-bit word; `root` is the document node, which every document has;
* the largest word, `absent`, names no node and prints as `#none`.
-/

namespace DomBuilder

/-- The number of a node. -/
structure NodeId where
  val : UInt32
  deriving DecidableEq, Repr

namespace NodeId

/-- The document node. -/
def root : NodeId := ⟨0⟩

/-- The id of no node. -/
def absent : NodeId := ⟨0xFFFFFFFF⟩

/-- The id of the node at place `n` of a document. -/
def ofNat (n : Nat) : NodeId := ⟨UInt32.ofNat n⟩

/-- The place a node has in its document. -/
def index (id : NodeId) : Nat := id.val.toNat

def toString (id : NodeId) : String :=
  if id = absent then "#none" else "#" ++ Nat.repr id.index

/-- A place that fits the word is read back. -/
theorem index_ofNat {n : Nat} (h : n < UInt32.size) : (ofNat n).index = n := by
  exact UInt32.toNat_ofNat_of_lt' h

/-- An id is its place. -/
@[simp] theorem ofNat_index (id : NodeId) : ofNat id.index = id := by
  simp [ofNat, index]

/-- Ids with one place are one id. -/
theorem index_inj {a b : NodeId} : a.index = b.index ↔ a = b :=
  ⟨fun h => by rw [← ofNat_index a, h, ofNat_index], fun h => h ▸ rfl⟩

end NodeId

end DomBuilder
