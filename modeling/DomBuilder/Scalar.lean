import DomBuilder.Decimal.Layout
import DomBuilder.NodeId

/-!
# Scalars

A scalar is a value that is read as text when it becomes an attribute's value or a child. This file
fixes the kinds and both texts:

* `Scalar.toText`: the text of an attribute value;
* `Scalar.toPageText`: the text of a child, which differs for floating-point numbers only.
-/

namespace DomBuilder

/-- A value with a text of its own. -/
inductive Scalar where
  | text (s : String)
  | bool (b : Bool)
  | int (n : Int)
  | float (x : BinaryFloat)
  | char (c : Char)
  | node (id : NodeId)
  deriving DecidableEq, Repr

namespace Scalar

def toText : Scalar → String
  | text s => s
  | bool true => "true"
  | bool false => "false"
  | int (.ofNat n) => Nat.repr n
  | int (.negSucc n) => "-" ++ Nat.repr (n + 1)
  | float x => x.plainText
  | char c => String.singleton c
  | node id => id.toString

def toPageText : Scalar → String
  | float x => x.pageText
  | s => s.toText

end Scalar

end DomBuilder
