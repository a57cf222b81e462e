import NetBalance.Diagram.Basic
import NetBalance.Node.Kind
import Mathlib

/-! # Exact numbers

    Over the rational numbers everything that is defined for doubles can be
    computed without rounding, except for square roots, and without infinite
    numbers. -/

namespace NetBalance

/-- The rational number that a numeral denotes, if any. -/
def Decimal.Numeral.toRat? : Decimal.Numeral → Option ℚ
  | .nan | .infinite _ => none
  | .finite negative digits exponent =>
    let magnitude : ℚ := if 0 ≤ exponent then digits * 10 ^ exponent.toNat
      else mkRat digits (10 ^ exponent.natAbs)
    some (if negative then -magnitude else magnitude)

instance : Scalar ℚ where
  lt a b := a < b
  le a b := a ≤ b
  isZero x := x = 0
  isFinite _ := true
  abs x := if x < 0 then -x else x
  sqrt x := mkRat (Nat.sqrt (x.num.toNat * x.den)) x.den
  epsilon := 0
  ofInt? n := some n
  ofNumeral? := Decimal.Numeral.toRat?
  truncate? x := some (x.num.tdiv x.den)

/-! ### Nodes to build examples of -/

namespace PlacedNode

variable {K : Type} [Zero K]

/-- An unlocked source at the origin, with or without the flag of a connection port. -/
def source (id : String) (input : Bool) : PlacedNode K :=
  ⟨id, .text "source", [("input", .bool input)], [0, 0]⟩

/-- A source with a value, locked or not. -/
def valued (id : String) (value : K) (locked : Bool) : PlacedNode K :=
  ⟨id, .text "source", [("value", .real value), ("locked", .bool locked)], []⟩

/-- A product of some ports on top and of one at the bottom. -/
def product (id : String) (top : List String) : PlacedNode K :=
  ⟨id, .text "mul", [("top_ports", .list (top.map .text)),
    ("bottom_ports", .list [.text "bottom_0"])], []⟩

/-- A sum of one port each way. -/
def balance (id : String) : PlacedNode K := ⟨id, .text "plus", Kind.defaultPayload .sum, []⟩

/-- A reference to a diagram. -/
def reference (id target : String) : PlacedNode K :=
  ⟨id, .text "reference", [("graph_id", .text target)], []⟩

end PlacedNode

namespace Diagram

/-- A diagram of one source, which is its connection port. -/
def cell : Diagram ℚ := ⟨"cell", "cell", [.source "p" true], []⟩

/-- A source and a reference to the cell, with edges between them. -/
def aroundCell (edges : List Edge) : Diagram ℚ :=
  ⟨"around", "around", [.source "s" false, .reference "r" "cell"], edges⟩

end Diagram

/-- The project of the cell alone. -/
def Project.ofCell : Project ℚ := Project.ofList [.cell]

end NetBalance
