import NetBalance.Equation.System
import Mathlib.Data.List.Forall2

/-! # Systems of networks with the same equations

    A system is read off the nodes of a network in order: off their kinds and
    payloads, and off the numbers of the nets of their ports.  References add
    no equation, so that a network without them has the same system. -/

namespace NetBalance

variable {K : Type}

/-- The rows of a system as plain lists, each with its residual and its source. -/
def EquationSystem.table {n : Nat} (s : EquationSystem K n) : List (List K × K × String) :=
  s.rows.map fun row => (row.row.toList, row.residual, row.source)

/-- Nodes with one id, kind and payload, and with the same nets at their ports. -/
structure FlatNode.Alike (m n : FlatNode K) : Prop where
  id : m.id = n.id
  kind : m.kind = n.kind
  payload : m.payload = n.payload
  net : ∀ name, m.net? name = n.net? name

variable [Add K] [Sub K] [Mul K] [Neg K] [Zero K] [One K] [Scalar K]

namespace FlatNode

variable {m n : FlatNode K} {size : Nat} {x : Array K}

theorem Alike.systemRows (h : m.Alike n) : m.systemRows size x = n.systemRows size x := by
  have hnet : m.net? = n.net? := funext h.net
  rw [FlatNode.systemRows, FlatNode.systemRows, equations, equations, h.kind, h.payload, hnet, h.id]

theorem systemRows_reference (h : n.kind = .reference) : n.systemRows size x = .ok [] := by
  rw [FlatNode.systemRows, equations, h]
  rfl

end FlatNode

/-- The rows of several nodes in order. -/
def rowsOf (size : Nat) (x : Array K) (nodes : List (FlatNode K)) :
    Except AssemblyError (List (List (SystemRow K size))) :=
  nodes.mapM fun node => node.systemRows size x

section Rows

variable {nodes nodes' : List (FlatNode K)} {size : Nat} {x : Array K}

/-- References may be left out. -/
theorem rowsOf_filter :
    (rowsOf size x (nodes.filter fun n => n.kind ≠ .reference)).map List.flatten =
      (rowsOf size x nodes).map List.flatten := by
  -- node by node; a reference is dropped, any other node adds its rows on both sides
  induction nodes with
  | nil => rfl
  | cons n rest ih =>
    by_cases h : n.kind = .reference
    · rw [List.filter_cons_of_neg (by simpa using h), ih, rowsOf, rowsOf, List.mapM_cons,
        FlatNode.systemRows_reference h]
      cases rest.mapM fun node => node.systemRows size x <;> rfl
    · rw [List.filter_cons_of_pos (by simpa using h)]
      simp only [rowsOf, List.mapM_cons] at ih ⊢
      cases hn : n.systemRows size x with
      | error e => rfl
      | ok rows =>
        -- the two tails fail alike, or have the same rows
        revert ih
        generalize (rest.filter fun n => n.kind ≠ .reference).mapM
          (fun node => node.systemRows size x) = tail
        generalize rest.mapM (fun node => node.systemRows size x) = tail'
        intro ih
        cases tail with
        | error e =>
          cases tail' with
          | error e' => simpa [Except.map] using ih
          | ok rows' => simp [Except.map] at ih
        | ok others =>
          cases tail' with
          | error e' => simp [Except.map] at ih
          | ok others' =>
            have hflat : others.flatten = others'.flatten := by simpa [Except.map] using ih
            simp [Except.map, pure, Except.pure, hflat]

/-- Nodes with the same rows, one by one, have the same rows together. -/
theorem rowsOf_congr
    (h : List.Forall₂ (fun m n => m.systemRows size x = n.systemRows size x) nodes' nodes) :
    rowsOf size x nodes' = rowsOf size x nodes := by
  induction h with
  | nil => rfl
  | cons hn _ ih =>
    simp only [rowsOf, List.mapM_cons] at ih ⊢
    rw [hn, ih]

theorem rowsOf_map {f : FlatNode K → FlatNode K}
    (h : ∀ n ∈ nodes, (f n).systemRows size x = n.systemRows size x) :
    rowsOf size x (nodes.map f) = rowsOf size x nodes :=
  rowsOf_congr (List.forall₂_map_left_iff.2 (List.forall₂_same.2 h))

end Rows

namespace Network

variable {net net' : Network K}

theorem table_assemble {size : Nat} (h : net.size = size) (x : Array K) :
    (net.assemble x).map EquationSystem.table =
      ((rowsOf size x net.nodes).map List.flatten).map fun rows =>
        rows.map fun row => (row.row.toList, row.residual, row.source) := by
  subst h
  rw [assemble, rowsOf]
  cases net.nodes.mapM fun node => node.systemRows net.size x <;> rfl

/-- Networks with as many nets, whose nodes are alike but for references, have the same system at
    every vector. -/
theorem table_assemble_congr (hsize : net'.size = net.size)
    (hnodes : List.Forall₂ FlatNode.Alike net'.nodes
      (net.nodes.filter fun n => n.kind ≠ .reference))
    (x : Array K) :
    (net'.assemble x).map EquationSystem.table = (net.assemble x).map EquationSystem.table := by
  rw [table_assemble hsize, table_assemble rfl, rowsOf_congr (hnodes.imp fun _ _ h => h.systemRows),
    rowsOf_filter]

end Network

end NetBalance
