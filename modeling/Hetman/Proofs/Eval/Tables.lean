import Hetman.Proofs.Eval.Matrices
import Mathlib.Data.List.Perm.Subperm
import Mathlib.Logic.Relation

/-!
# Tables

A table is a matrix by its rows (`Heap.IsTable`). Its transpose is a table with rows and columns
exchanged (`transpose_table`), and what is said of the one agrees with what is said of the other.
The leaves of nested lists are what flattening gives, as long as no list is nested in itself
(`matrix_functions_agree`).
-/

namespace Hetman

open List
open Relation (TransGen)

/-- Rows of one length, with at least one cell. -/
structure Rectangular (rows : List (List Value)) (c : Nat) : Prop where
  some_row : 0 < rows.length
  some_cell : 0 < c
  width : ∀ row ∈ rows, row.length = c

def cell (rows : List (List Value)) (i j : Nat) : Option Value :=
  rows[i]?.bind (·[j]?)

/-- The columns of rows, each from the first row to the last. -/
def columns (rows : List (List Value)) (c : Nat) : List (List Value) :=
  (range c).map fun j => rows.filterMap (·[j]?)

namespace Rectangular

variable {rows : List (List Value)} {c i j : Nat} (rect : Rectangular rows c)

include rect

theorem headD_length : (rows.headD []).length = c := by
  obtain ⟨row, rest, rfl⟩ := exists_cons_of_length_pos rect.some_row
  exact rect.width row mem_cons_self

theorem column_eq (inside : j < c) :
    rows.filterMap (·[j]?) = rows.map fun row => row.getD j .none := by
  rw [← filterMap_eq_map]
  refine filterMap_congr fun row member => ?_
  have bound : j < row.length := rect.width row member ▸ inside
  simp [bound]

theorem cell_isSome : (cell rows i j).isSome ↔ i < rows.length ∧ j < c := by
  unfold cell
  by_cases isRow : i < rows.length
  · have width := rect.width _ (getElem_mem isRow)
    simp [isRow, width]
  · simp [isRow]

theorem columns : Rectangular (columns rows c) rows.length where
  some_row := by simpa [Hetman.columns] using rect.some_cell
  some_cell := rect.some_row
  width := by
    intro row member
    obtain ⟨j, inside, rfl⟩ := mem_map.mp member
    rw [rect.column_eq (mem_range.mp inside), length_map]

theorem cell_columns (i j : Nat) :
    cell (Hetman.columns rows c) j i = cell rows i j := by
  by_cases inside : j < c
  · have width (isRow : i < rows.length) : j < rows[i].length :=
      (rect.width _ (getElem_mem isRow)).symm ▸ inside
    by_cases isRow : i < rows.length
    · simp [cell, Hetman.columns, inside, rect.column_eq inside, isRow, width isRow]
    · simp [cell, Hetman.columns, inside, rect.column_eq inside, isRow]
  · have absent : ¬(cell rows i j).isSome = true := fun isSome =>
      inside (rect.cell_isSome.mp isSome).2
    rw [Option.not_isSome_iff_eq_none.mp absent]
    simp [cell, Hetman.columns, inside]

/-- Rows are known by their cells. -/
theorem columns_columns :
    Hetman.columns (Hetman.columns rows c) rows.length = rows := by
  have same : (Hetman.columns (Hetman.columns rows c) rows.length).length = rows.length := by
    simp [Hetman.columns]
  refine ext_getElem same fun i first second => ext_getElem? fun j => ?_
  have cells := (rect.columns.cell_columns j i).trans (rect.cell_columns i j)
  simpa only [cell, getElem?_eq_getElem first, getElem?_eq_getElem second, Option.bind_some]
    using cells

omit rect in
theorem flatten_cells (width : ∀ row ∈ rows, row.length = c) :
    rows.flatten.length = rows.length * c ∧
      ∀ i, ∀ j < c, rows.flatten[i * c + j]? = cell rows i j := by
  induction rows with
  | nil => simp [cell]
  | cons row rest ih =>
    obtain ⟨first, others⟩ := forall_mem_cons.mp width
    obtain ⟨length, cells⟩ := ih others
    refine ⟨by simp [first, length, Nat.succ_mul, Nat.add_comm], fun i j inside => ?_⟩
    cases i with
    | zero => simp [cell, getElem?_append_left (first.symm ▸ inside)]
    | succ i =>
      have place : (i + 1) * c + j = row.length + (i * c + j) := by
        rw [Nat.succ_mul]
        omega
      rw [flatten_cons, place, getElem?_append_right (Nat.le_add_right ..), Nat.add_sub_cancel_left,
        cells i j inside]
      rfl

end Rectangular

namespace Heap

variable {h h' : Heap} {m : Value} {rows : List (List Value)} {c ref : Nat} {items flat : List Value}

/-- A matrix with these rows. -/
def IsTable (h : Heap) (m : Value) (rows : List (List Value)) : Prop :=
  ∃ ref refs, m = .list ref ∧ h.list ref = map .list refs ∧ refs.map h.list = rows

theorem rows?_refs (h : Heap) (refs : List Nat) :
    h.rows? (refs.map .list) = some (refs.map h.list) := by
  induction refs with
  | nil => rfl
  | cons ref rest ih => simp [rows?, ih]

theorem isEmpty_refs {refs : List Nat} (rect : Rectangular (refs.map h.list) c) :
    (refs.map Value.list).isEmpty = false := by
  simpa [isEmpty_eq_false_iff, ← length_pos_iff] using rect.some_row

theorem isTable_newMatrix (h : Heap) (rows : List (List Value)) :
    ∃ ref, (h.newMatrix rows).1 = .list ref ∧ (h.newMatrix rows).2.IsTable (.list ref) rows := by
  have made : h.newMatrix rows =
      Heap.newList { h with lists := h.lists ++ rows.toArray }
        ((range rows.length).map fun p => .list (h.lists.size + p)) := by
    unfold newMatrix
    rw [newLists_eq]
  rw [made]
  refine ⟨_, rfl, _, (range rows.length).map (h.lists.size + ·), rfl, ?_, ?_⟩
  · rw [list_newList, map_map]
    rfl
  · refine ext_getElem? fun i => ?_
    by_cases inside : i < rows.length
    · simp [newList, Heap.list, Array.getElem?_append, getElem?_append_left, inside,
        Nat.not_lt.mpr (Nat.le_add_right ..)]
    · simp [inside]

theorem transpose_table (table : h.IsTable m rows) (rect : Rectangular rows c) :
    h.transpose m = .ok (h.newMatrix (columns rows c)) := by
  obtain ⟨ref, refs, rfl, lines, rfl⟩ := table
  have same : (refs.map h.list).all (fun row => row.length == c) = true :=
    all_eq_true.mpr fun row member => beq_of_eq (rect.width row member)
  simp only [transpose, listRef, lines, isEmpty_refs rect, rows?_refs, rect.headD_length, same, bind,
    Except.bind]
  rfl

theorem matrixSize_table (table : h.IsTable m rows) (rect : Rectangular rows c) :
    h.matrixSize m = .ok (h.newList [.int rows.length, .int c]) := by
  obtain ⟨ref, refs, rfl, lines, rfl⟩ := table
  have head := rect.headD_length
  cases refs with
  | nil => exact absurd rect.some_row (Nat.lt_irrefl 0)
  | cons first rest =>
    have width : (h.list first).length = c := head
    simp [matrixSize, listRef, lines, width, bind, Except.bind, pure, Except.pure]

theorem place_eq (n : Int) (bound : Nat) (otherwise : ArgumentFault) :
    place n bound otherwise =
      if 0 ≤ n ∧ n < bound then .ok n.toNat else .error (argumentFault otherwise) := by
  simp [place]

theorem getRow_table (table : h.IsTable m rows) {index : Value} {n : Int}
    (isInt : index.int? = some n) :
    if 0 ≤ n ∧ n < rows.length then
      ∃ ref, h.getRow m index = .ok (.list ref, h) ∧ rows[n.toNat]? = some (h.list ref)
    else ∃ fault, h.getRow m index = .error (.script fault) := by
  obtain ⟨ref, refs, rfl, lines, rfl⟩ := table
  have asked : h.getRow (.list ref) index = place n refs.length .rowBounds >>= fun i =>
      .ok ((refs.map Value.list).getD i .none, h) := by
    simp [getRow, listRef, integer, isInt, lines, bind, Except.bind, pure, Except.pure]
  rw [asked, place_eq, length_map]
  split
  · next inside =>
    have bound : n.toNat < refs.length := by omega
    simp [bound, bind, Except.bind]
  · exact ⟨_, rfl⟩

theorem mapM_column {i : Nat} (width : ∀ row ∈ rows, i < row.length) :
    (rows.mapM fun row => match row[i]? with
      | some v => .ok v
      | none => .error .outOfRange) = (.ok (rows.filterMap (·[i]?)) : Except Fault _) := by
  induction rows with
  | nil => rfl
  | cons row rest ih =>
    obtain ⟨first, others⟩ := forall_mem_cons.mp width
    rw [mapM_cons, ih others]
    simp [first, bind, Except.bind, pure, Except.pure]

theorem getCol_table (table : h.IsTable m rows) (rect : Rectangular rows c) {index : Value} {n : Int}
    (isInt : index.int? = some n) :
    if 0 ≤ n ∧ n < c then
      h.getCol m index = .ok (h.newList (rows.filterMap (·[n.toNat]?)))
    else ∃ fault, h.getCol m index = .error (.script fault) := by
  obtain ⟨ref, refs, rfl, lines, rfl⟩ := table
  have asked : h.getCol (.list ref) index = place n c .columnBounds >>= fun i =>
      ((refs.map h.list).mapM fun row => match row[i]? with
        | some v => .ok v
        | none => .error .outOfRange) >>= fun column => .ok (h.newList column) := by
    simp only [getCol, listRef, integer, isInt, lines, isEmpty_refs rect, rows?_refs,
      rect.headD_length, bind, Except.bind]
    rfl
  rw [asked, place_eq]
  split
  · next inside =>
    have width : ∀ row ∈ refs.map h.list, n.toNat < row.length := by
      intro row member
      rw [rect.width row member]
      omega
    exact (congrArg (· >>= fun column => .ok (h.newList column)) (mapM_column width)).trans rfl
  · exact ⟨_, rfl⟩

/-! ## Nested lists -/

/-- A list is an element of another. -/
def Inside (h : Heap) (inner outer : Nat) : Prop :=
  .list inner ∈ h.list outer

/-- The values in nested lists that are no lists themselves, in their order. -/
inductive Leaves (h : Heap) : List Value → List Value → Prop
  | nil : Leaves h [] []
  | item {v : Value} {rest flat : List Value} (single : ∀ ref, v ≠ .list ref)
      (others : Leaves h rest flat) : Leaves h (v :: rest) (v :: flat)
  | list {ref : Nat} {front rest flat : List Value} (inner : Leaves h (h.list ref) front)
      (others : Leaves h rest flat) : Leaves h (.list ref :: rest) (front ++ flat)

theorem Leaves.single (leaves : h.Leaves items flat) : ∀ v ∈ flat, ∀ ref, v ≠ .list ref := by
  induction leaves with
  | nil => exact fun _ member => absurd member not_mem_nil
  | item single others ih => exact forall_mem_cons.mpr ⟨single, ih⟩
  | list inner others front back => exact forall_mem_append.mpr ⟨front, back⟩

theorem flattenAt_list (h : Heap) (depth ref : Nat) (rest : List Value) :
    h.flattenAt (depth + 1) (.list ref :: rest) =
      h.flattenAt depth (h.list ref) >>= fun front =>
        h.flattenAt (depth + 1) rest >>= fun back => .ok (front ++ back) := by
  simp only [flattenAt, mapM_cons, bind_assoc]
  rfl

theorem flattenAt_item (h : Heap) (depth : Nat) {v : Value} (single : ∀ ref, v ≠ .list ref)
    (rest : List Value) :
    h.flattenAt (depth + 1) (v :: rest) =
      h.flattenAt (depth + 1) rest >>= fun back => .ok (v :: back) := by
  simp only [flattenAt, mapM_cons, bind_assoc]
  cases v with
  | list ref => exact absurd rfl (single ref)
  | _ => rfl

theorem leaves_of_flattenAt {depth : Nat} (done : h.flattenAt depth items = .ok flat) :
    h.Leaves items flat := by
  induction depth generalizing items flat with
  | zero => cases done
  | succ depth deeper =>
    induction items generalizing flat with
    | nil =>
      cases done
      exact .nil
    | cons v rest ih =>
      by_cases isList : ∃ ref, v = .list ref
      · obtain ⟨ref, rfl⟩ := isList
        rw [flattenAt_list] at done
        cases inner : h.flattenAt depth (h.list ref) with
        | error fault => simp [inner, bind, Except.bind] at done
        | ok front =>
          cases back : h.flattenAt (depth + 1) rest with
          | error fault => simp [inner, back, bind, Except.bind] at done
          | ok others =>
            simp only [inner, back] at done
            cases done
            exact .list (deeper inner) (ih back)
      · have single : ∀ ref, v ≠ .list ref := fun ref same => isList ⟨ref, same⟩
        rw [flattenAt_item h depth single] at done
        cases back : h.flattenAt (depth + 1) rest with
        | error fault => simp [back, bind, Except.bind] at done
        | ok others =>
          simp only [back] at done
          cases done
          exact .item single (ih back)

theorem flattenAt_succeeds {depth : Nat}
    (inner : ∀ ref, .list ref ∈ items → ∃ flat, h.flattenAt depth (h.list ref) = .ok flat) :
    ∃ flat, h.flattenAt (depth + 1) items = .ok flat := by
  induction items with
  | nil => exact ⟨[], rfl⟩
  | cons v rest ih =>
    obtain ⟨back, isBack⟩ := ih fun ref member => inner ref (mem_cons_of_mem _ member)
    by_cases isList : ∃ ref, v = .list ref
    · obtain ⟨ref, rfl⟩ := isList
      obtain ⟨front, isFront⟩ := inner ref mem_cons_self
      exact ⟨front ++ back, by rw [flattenAt_list, isFront, isBack]; rfl⟩
    · have single : ∀ ref, v ≠ .list ref := fun ref same => isList ⟨ref, same⟩
      exact ⟨v :: back, by rw [flattenAt_item h depth single, isBack]; rfl⟩

theorem flattenAt_single (single : ∀ v ∈ items, ∀ ref, v ≠ .list ref) (depth : Nat) :
    h.flattenAt (depth + 1) items = .ok items := by
  induction items with
  | nil => rfl
  | cons v rest ih =>
    obtain ⟨first, others⟩ := forall_mem_cons.mp single
    rw [flattenAt_item h depth first, ih others]
    rfl

theorem flattenAt_rows {refs : List Nat}
    (single : ∀ row ∈ refs.map h.list, ∀ v ∈ row, ∀ ref, v ≠ .list ref) (depth : Nat) :
    h.flattenAt (depth + 2) (refs.map .list) = .ok (refs.map h.list).flatten := by
  induction refs with
  | nil => rfl
  | cons ref rest ih =>
    obtain ⟨first, others⟩ := forall_mem_cons.mp single
    rw [map_cons, flattenAt_list, flattenAt_single first, ih others]
    rfl

theorem not_rel_self {r : Nat → Nat → Prop} {a : Nat} (acc : Acc r a) : ¬r a a := by
  induction acc with
  | intro a below ih => exact fun self => ih a self self

/-- The lists that a list is nested in are different from it, so there are no more of them than
lists. -/
theorem flattenAt_of_acc (acc : Acc h.Inside ref) (path : List Nat) (distinct : path.Nodup)
    (around : ∀ a ∈ path, a < h.lists.size ∧ TransGen h.Inside ref a) :
    ∃ flat, h.flattenAt (h.lists.size + 1 - path.length) (h.list ref) = .ok flat := by
  induction acc generalizing path with
  | intro ref below ih =>
    have room : path.length ≤ h.lists.size := by
      have within : path ⊆ range h.lists.size := fun a member => mem_range.mpr (around a member).1
      simpa using (distinct.subperm within).length_le
    obtain ⟨depth, isDepth⟩ : ∃ depth, h.lists.size + 1 - path.length = depth + 1 :=
      ⟨h.lists.size - path.length, by omega⟩
    rw [isDepth]
    refine flattenAt_succeeds fun inner member => ?_
    have bound : ref < h.lists.size := stored_of_inside (length_pos_of_mem member)
    have apart : ref ∉ path := fun again =>
      not_rel_self (Acc.intro ref below).transGen (around ref again).2
    have next := ih inner member (ref :: path) (nodup_cons.mpr ⟨apart, distinct⟩)
      (forall_mem_cons.mpr ⟨⟨bound, .single member⟩, fun a inPath =>
        ⟨(around a inPath).1, .head member (around a inPath).2⟩⟩)
    rwa [length_cons, show h.lists.size + 1 - (path.length + 1) = depth by omega] at next

theorem flatten_eq {array : Nat} (done : h.flattenAt (h.lists.size + 1) (h.list array) = .ok flat) :
    ∃ a g, h.flatten (.list array) = .ok (.list a, g) ∧ g.list a = flat := by
  refine ⟨_, _, ?_, list_newList h flat⟩
  unfold flatten
  simp only [listRef, done, bind, Except.bind]
  rfl

/-- A table without lists in it is flattened row by row. -/
theorem flatten_table (table : h.IsTable m rows) (rect : Rectangular rows c)
    (single : ∀ row ∈ rows, ∀ v ∈ row, ∀ ref, v ≠ .list ref) :
    ∃ a g, h.flatten m = .ok (.list a, g) ∧ (g.list a).length = rows.length * c ∧
      ∀ i, ∀ j < c, (g.list a)[i * c + j]? = cell rows i j := by
  obtain ⟨length, cells⟩ := Rectangular.flatten_cells rect.width
  obtain ⟨array, refs, rfl, lines, rfl⟩ := table
  have some_line : 0 < (h.list array).length := by
    simpa [lines] using rect.some_row
  obtain ⟨depth, isDepth⟩ := Nat.exists_eq_add_of_lt (stored_of_inside some_line)
  have done : h.flattenAt (h.lists.size + 1) (h.list array) = .ok (refs.map h.list).flatten := by
    rw [isDepth, lines]
    exact flattenAt_rows single _
  obtain ⟨a, g, flattened, isFlat⟩ := flatten_eq done
  exact ⟨a, g, flattened, isFlat ▸ length, isFlat ▸ cells⟩

end Heap

namespace Eval

variable {s : Session} {m : Value} {rows : List (List Value)} {c : Nat}

theorem heapCall_transpose (m : Value) : HeapCall .transpose [m] (·.transpose m) :=
  ⟨rfl, nofun, fun _ => rfl⟩

theorem heapCall_getRow (m index : Value) : HeapCall .getRow [m, index] (·.getRow m index) :=
  ⟨rfl, nofun, fun _ => rfl⟩

theorem heapCall_getCol (m index : Value) : HeapCall .getCol [m, index] (·.getCol m index) :=
  ⟨rfl, nofun, fun _ => rfl⟩

theorem heapCall_flatten (m : Value) : HeapCall .flatten [m] (·.flatten m) :=
  ⟨rfl, nofun, fun _ => rfl⟩

/-- What a program sees of a table and, with another heap, of its transpose. -/
structure Agrees (s : Session) (m : Value) (rows : List (List Value)) (c : Nat) (heap : Heap)
    (turned : Value) : Prop where
  turns : ∃ rows', heap.IsTable turned rows' ∧ rows'.length = c ∧ Rectangular rows' rows.length ∧
    ∀ i j, cell rows' j i = cell rows i j
  size : ∃ a g, CallEnds .matrixSize [turned] { s with heap } (.ok (.list a) { s with heap := g }) ∧
    g.list a = [.int c, .int rows.length]
  returns : ∃ again g, CallEnds .transpose [turned] { s with heap } (.ok again { s with heap := g }) ∧
    g.IsTable again rows
  lines : ∀ (index : Value) (n : Int), index.int? = some n →
    if 0 ≤ n ∧ n < c then
      ∃ a b g, CallEnds .getCol [m, index] s (.ok (.list a) { s with heap := g }) ∧
        CallEnds .getRow [turned, index] { s with heap } (.ok (.list b) { s with heap }) ∧
        g.list a = heap.list b
    else ∃ fault fault', CallEnds .getCol [m, index] s (.error (.failed (.script fault)) s) ∧
      CallEnds .getRow [turned, index] { s with heap }
        (.error (.failed (.script fault')) { s with heap })
  flat : (∀ row ∈ rows, ∀ v ∈ row, ∀ ref, v ≠ .list ref) →
    ∃ a g, CallEnds .flatten [m] s (.ok (.list a) { s with heap := g }) ∧
      (g.list a).length = rows.length * c ∧ ∀ i, ∀ j < c, (g.list a)[i * c + j]? = cell rows i j

theorem agrees_transpose (table : s.heap.IsTable m rows) (rect : Rectangular rows c) :
    ∃ turned heap, CallEnds .transpose [m] s (.ok turned { s with heap }) ∧
      Agrees s m rows c heap turned := by
  obtain ⟨ref, isRef, turned⟩ := s.heap.isTable_newMatrix (columns rows c)
  have length : (columns rows c).length = c := by simp [columns]
  have again := Heap.transpose_table turned rect.columns
  rw [rect.columns_columns] at again
  obtain ⟨back, isBack, isTable⟩ := (s.heap.newMatrix (columns rows c)).2.isTable_newMatrix rows
  have transposed := Heap.transpose_table table rect
  rw [show s.heap.newMatrix (columns rows c) = (.list ref, _) from Prod.ext isRef rfl] at transposed
  rw [show (Heap.newMatrix _ rows) = (.list back, _) from Prod.ext isBack rfl] at again
  refine ⟨.list ref, _, (heapCall_transpose m).ok transposed,
    ⟨_, turned, length, rect.columns, rect.cell_columns⟩, ?_,
    ⟨.list back, _, (heapCall_transpose _).ok again, isTable⟩, ?_, ?_⟩
  · have sized := Heap.matrixSize_table turned rect.columns
    rw [length] at sized
    have measures : HeapCall .matrixSize [.list ref] (·.matrixSize (.list ref)) :=
      ⟨rfl, nofun, fun _ => rfl⟩
    exact ⟨_, _, measures.ok sized, Heap.list_newList ..⟩
  · intro index n isInt
    have row := Heap.getRow_table turned isInt
    have col := Heap.getCol_table table rect isInt
    rw [length] at row
    split
    · next inside =>
      rw [if_pos inside] at row col
      obtain ⟨b, isRow, found⟩ := row
      refine ⟨_, b, _, (heapCall_getCol m index).ok col, (heapCall_getRow _ index).ok isRow,
        (Heap.list_newList ..).trans ?_⟩
      have bound : n.toNat < c := by omega
      simpa [columns, bound] using found
    · next outside =>
      rw [if_neg outside] at row col
      obtain ⟨fault, isCol⟩ := col
      obtain ⟨fault', isRow⟩ := row
      exact ⟨fault, fault', (heapCall_getCol m index).failed isCol,
        (heapCall_getRow _ index).failed isRow⟩
  · intro single
    obtain ⟨a, g, flattened, isFlat⟩ := Heap.flatten_table table rect single
    exact ⟨a, g, (heapCall_flatten m).ok flattened, isFlat⟩

/-- A table agrees with its transpose. And nested lists that end somewhere can be flattened: what is
left are the leaves, none of them a list, and flattening them again changes nothing. -/
theorem matrix_functions_agree :
    (∀ (s : Session) (m : Value) (rows : List (List Value)) (c : Nat), s.heap.IsTable m rows →
      Rectangular rows c →
      ∃ turned heap, CallEnds .transpose [m] s (.ok turned { s with heap }) ∧
        Agrees s m rows c heap turned) ∧
    ∀ (s : Session) (ref : Nat), Acc s.heap.Inside ref →
      ∃ flat a b g g', CallEnds .flatten [.list ref] s (.ok (.list a) { s with heap := g }) ∧
        g.list a = flat ∧ s.heap.Leaves (s.heap.list ref) flat ∧
        (∀ v ∈ flat, ∀ ref, v ≠ .list ref) ∧
        CallEnds .flatten [.list a] { s with heap := g } (.ok (.list b) { s with heap := g' }) ∧
        g'.list b = flat := by
  refine ⟨fun s m rows c => agrees_transpose, fun s ref acc => ?_⟩
  obtain ⟨flat, done⟩ := Heap.flattenAt_of_acc acc [] nodup_nil (forall_mem_nil _)
  obtain ⟨a, g, flattened, isFlat⟩ := Heap.flatten_eq done
  have leaves := Heap.leaves_of_flattenAt done
  have settled : g.flattenAt (g.lists.size + 1) (g.list a) = .ok flat :=
    isFlat ▸ Heap.flattenAt_single (isFlat ▸ leaves.single) _
  obtain ⟨b, g', again, same⟩ := Heap.flatten_eq settled
  exact ⟨flat, a, b, g, g', (heapCall_flatten _).ok flattened, isFlat, leaves, leaves.single,
    (heapCall_flatten _).ok again, same⟩

/-- A table of one row. -/
theorem matrix_functions_agree_row :
    let s : Session := { env := [("m", .list 0)], heap := { lists := #[[.list 1], [.int 1, .int 2]] } }
    (∃ turned heap,
      Ends (fun n => eval n (.call "transpose" (some [.var "m"]))) s (.ok turned { s with heap }) ∧
      Agrees s (.list 0) [[.int 1, .int 2]] 2 heap turned) ∧
    ∃ flat a g,
      Ends (fun n => eval n (.call "splushchyty" (some [.var "m"]))) s
        (.ok (.list a) { s with heap := g }) ∧
      g.list a = flat ∧ s.heap.Leaves (s.heap.list 0) flat := by
  intro s
  have given : InTurn [.var "m"] s [.list 0] s := .cons (Ends.eval (.pure _ s)) (.nil s)
  have ends : Acc s.heap.Inside 0 := by
    refine .intro 0 fun inner member => ?_
    cases mem_singleton.mp member
    exact .intro 1 fun _ member => by simp [s, Heap.Inside, Heap.list] at member
  obtain ⟨tables, nested⟩ := matrix_functions_agree
  obtain ⟨turned, heap, transposed, agrees⟩ :=
    tables s (.list 0) _ 2 ⟨0, [1], rfl, rfl, rfl⟩ ⟨by decide, by decide, by simp [s, Heap.list]⟩
  obtain ⟨flat, a, _, g, _, flattened, isFlat, leaves, _⟩ := nested s 0 ends
  exact ⟨⟨turned, heap, transposed _ _ s (by decide) given, agrees⟩,
    flat, a, g, flattened _ _ s (by decide) given, isFlat, leaves⟩

end Eval

end Hetman
