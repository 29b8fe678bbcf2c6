import Hetman.Proofs.Eval.NestedElements

/-!
# The cells of a matrix

A matrix is a list of rows, each of them a list of its own (`isMatrix_newMatrix`), and to write a
cell leaves the rows in their places (`IsMatrix.write`). So every cell holds what was written to it
last, and the size stays the same (`cells_independent`).
-/

namespace Hetman

open List

structure CellWrite where
  row : Nat
  col : Nat
  value : Value

/-- A cell after writes: the value of the last one to it, if any. -/
def CellWrite.last (before : Value) (writes : List CellWrite) (p q : Nat) : Value :=
  writes.foldl (fun v w => if p = w.row ∧ q = w.col then w.value else v) before

namespace Heap

variable {h : Heap} {m rows cols p q : Nat} {row : Nat → Nat} {cell : Nat → Nat → Value}

/-! ## Matrices -/

/-- A list of rows that are lists of their own, with a value in each cell. -/
structure IsMatrix (h : Heap) (m rows cols : Nat) (row : Nat → Nat) (cell : Nat → Nat → Value) :
    Prop where
  lines : h.list m = (List.range rows).map fun p => .list (row p)
  apart : ∀ p < rows, row p ≠ m
  distinct : ∀ p < rows, ∀ p' < rows, row p = row p' → p = p'
  cells : ∀ p < rows, h.list (row p) = (List.range cols).map (cell p)

theorem newLists_eq (h : Heap) (lists : List (List Value)) :
    h.newLists lists = ((List.range lists.length).map fun p => .list (h.lists.size + p),
      { h with lists := h.lists ++ lists.toArray }) := by
  induction lists generalizing h with
  | nil => simp [newLists]
  | cons items rest ih =>
    unfold newLists
    dsimp only [newList]
    rw [ih]
    have later : ∀ p, h.lists.size + 1 + p = h.lists.size + (p + 1) := fun p => by omega
    simp [range_succ_eq_map, later]

theorem isMatrix_newMatrix (h : Heap) (rows cols : Nat) (fill : Value) :
    ∃ m heap row, h.newMatrix (List.replicate rows (List.replicate cols fill)) = (.list m, heap) ∧
      heap.IsMatrix m rows cols row fun _ _ => fill := by
  let line := List.replicate cols fill
  let heap : Heap := { h with
    lists := (h.lists ++ (List.replicate rows line).toArray).push
      ((List.range rows).map fun p => .list (h.lists.size + p)) }
  have size : (h.lists ++ (List.replicate rows line).toArray).size = h.lists.size + rows := by
    simp
  refine ⟨h.lists.size + rows, heap, (h.lists.size + ·), ?_, ?_, ?_, ?_, ?_⟩
  · unfold newMatrix
    rw [newLists_eq]
    simp [newList, heap, line]
  · unfold list
    rw [← size, Array.getElem?_push_size]
    rfl
  · exact fun p isRow same => Nat.ne_of_lt isRow (Nat.add_left_cancel same)
  · exact fun _ _ _ _ same => Nat.add_left_cancel same
  · intro p isRow
    have other : h.lists.size + p ≠ (h.lists ++ (List.replicate rows line).toArray).size := by
      omega
    unfold list
    rw [Array.getElem?_push, if_neg other, Array.getElem?_append_right (Nat.le_add_right _ p),
      Nat.add_sub_cancel_left]
    simp [isRow, line]

theorem place?_of_items {ref n : Nat} {i : Value} {f : Nat → Value}
    (items : h.list ref = (List.range n).map f) (isInt : i.int? = some (p : Int))
    (inside : p < n) : h.place? ref i = some p ∧ (h.list ref)[p]? = some (f p) := by
  refine ⟨place?_eq_some_iff.mpr ⟨isInt, ?_⟩, ?_⟩
  · rwa [items, length_map, length_range]
  · rw [items, getElem?_map, getElem?_range inside]
    rfl

/-- To write a cell leaves all others as they are. -/
theorem IsMatrix.write (isMatrix : h.IsMatrix m rows cols row cell) (isRow : p < rows)
    (isCol : q < cols) (v : Value) :
    (h.placed v (row p, q)).IsMatrix m rows cols row
      fun p' q' => if p' = p ∧ q' = q then v else cell p' q' := by
  have inside : q < (h.list (row p)).length := by
    rwa [isMatrix.cells p isRow, length_map, length_range]
  have replaces := replaces_placed inside v
  refine ⟨?_, isMatrix.apart, isMatrix.distinct, fun p' isRow' => ?_⟩
  · rw [replaces.lists m (isMatrix.apart p isRow).symm, isMatrix.lines]
  · by_cases same : p' = p
    · subst same
      rw [placed, list_setList_self _ inside, isMatrix.cells p' isRow]
      refine ext_getElem (by simp) fun k _ _ => ?_
      simp [getElem_set, eq_comm]
    · rw [replaces.lists (row p') fun here => same (isMatrix.distinct p' isRow' p isRow here),
        isMatrix.cells p' isRow']
      simp [same]

end Heap

namespace Eval

variable {s t : Session} {name f : String} {i j value : Node} {nodes : List Node}
  {rows cols m : Nat} {row : Nat → Nat} {cell : Nat → Nat → Value} {w : CellWrite}
  {writes : List CellWrite}

/-! ## Writing cells -/

/-- The node gives a number in the session. -/
def Counts (s : Session) (node : Node) (n : Nat) : Prop :=
  ∃ key : Value, Gives s node key ∧ key.int? = some (n : Int)

/-- The statement writes a cell of the matrix in a variable. -/
inductive WritesCell (s : Session) (name : String) (w : CellWrite) : Node → Prop
  | assignment {i j value : Node} (isRow : Counts s i w.row) (isCol : Counts s j w.col)
      (isValue : Gives s value w.value) :
      WritesCell s name w (Parser.assignTo (.lookup (.lookup (.var name) i) j) value)
  | setAt {f : String} {i j value : Node} (isSetAt : Builtin.ofName? f = some .setAt)
      (isRow : Counts s i w.row) (isCol : Counts s j w.col) (isValue : Gives s value w.value) :
      WritesCell s name w (.call f (some [.var name, i, j, value]))

/-- The statements write cells one after another. -/
inductive WritesCells (name : String) (rows cols : Nat) :
    Session → List Node → List CellWrite → Prop
  | nil (s : Session) : WritesCells name rows cols s [] []
  | cons {s : Session} {node : Node} {nodes : List Node} {w : CellWrite} {writes : List CellWrite}
      (isRow : w.row < rows) (isCol : w.col < cols) (first : WritesCell s name w node)
      (rest : ∀ v t, Ends (fun n => eval n node) s (.ok v t) →
        WritesCells name rows cols t nodes writes) :
      WritesCells name rows cols s (node :: nodes) (w :: writes)

/-- The matrix in a variable shows a value in each cell, and its size. -/
structure ShowsMatrix (s : Session) (name : String) (rows cols : Nat)
    (cell : Nat → Nat → Value) : Prop where
  cells : ∀ i j p q, Counts s i p → Counts s j q → p < rows → q < cols →
    Gives s (.lookup (.lookup (.var name) i) j) (cell p q)
  size : ∀ f, Builtin.ofName? f = some .matrixSize → ∃ ref heap,
    Ends (fun n => eval n (.call f (some [.var name]))) s (.ok (.list ref) { s with heap }) ∧
      heap.list ref = [.int rows, .int cols]

theorem gives_var {v : Value} (bound : s.env.get? name = some v) : Gives s (.var name) v := by
  exact .eval ((Ends.pure v s).of_eventually 0 fun _ _ => evalVariable_bound bound)

theorem ends_write {node : Node} (bound : s.env.get? name = some (.list m))
    (isMatrix : s.heap.IsMatrix m rows cols row cell) (isRow : w.row < rows) (isCol : w.col < cols)
    (writes : WritesCell s name w node) :
    ∃ v, Ends (fun n => eval n node) s
      (.ok v { s with heap := s.heap.placed w.value (row w.row, w.col) }) := by
  have isArray := gives_var bound
  have locates : ∀ {i j : Value}, i.int? = some (w.row : Int) → j.int? = some (w.col : Int) →
      s.heap.Locates m [i, j] (row w.row) w.col := by
    intro i j isInt isInt'
    obtain ⟨isPlace, item⟩ := Heap.place?_of_items isMatrix.lines isInt isRow
    have cells := isMatrix.cells w.row isRow
    exact .inner isPlace item (.found (Heap.place?_of_items cells isInt' isCol).1)
  cases writes with
  | assignment isFirst isSecond isValue =>
    obtain ⟨first, gives, isInt⟩ := isFirst
    obtain ⟨second, gives', isInt'⟩ := isSecond
    exact ⟨_, comes_assignment isArray (.cons gives (.cons gives' .nil)) isValue
      (locates isInt isInt')⟩
  | setAt isSetAt isFirst isSecond isValue =>
    obtain ⟨first, gives, isInt⟩ := isFirst
    obtain ⟨second, gives', isInt'⟩ := isSecond
    exact ⟨_, comes_setAt isSetAt isArray (.cons gives (.cons gives' .nil)) isValue
      (locates isInt isInt')⟩

theorem ends_writes (bound : s.env.get? name = some (.list m))
    (isMatrix : s.heap.IsMatrix m rows cols row cell)
    (all : WritesCells name rows cols s nodes writes) :
    ∃ heap, Ends (fun n => runBlock (eval n) nodes) s (.ok () { s with heap }) ∧
      heap.IsMatrix m rows cols row fun p q => CellWrite.last (cell p q) writes p q := by
  induction all generalizing cell with
  | nil s => exact ⟨s.heap, .pure () s, isMatrix⟩
  | @cons s node nodes w writes isRow isCol first rest ih =>
    obtain ⟨v, written⟩ := ends_write bound isMatrix isRow isCol first
    obtain ⟨heap, ended, isMatrix'⟩ := ih v _ written bound (isMatrix.write isRow isCol w.value)
    exact ⟨heap, written.bind ended, isMatrix'⟩

theorem showsMatrix_of_isMatrix (bound : s.env.get? name = some (.list m)) (some_row : 0 < rows)
    (isMatrix : s.heap.IsMatrix m rows cols row cell) : ShowsMatrix s name rows cols cell where
  cells i j p q isFirst isSecond isRow isCol := by
    obtain ⟨first, gives, isInt⟩ := isFirst
    obtain ⟨second, gives', isInt'⟩ := isSecond
    have line := comes_lookup (gives_var bound) gives
    obtain ⟨isPlace, item⟩ := Heap.place?_of_items isMatrix.lines isInt isRow
    rw [isPlace, Option.bind_some, item] at line
    have read := comes_lookup line gives'
    obtain ⟨isPlace', item'⟩ := Heap.place?_of_items (isMatrix.cells p isRow) isInt' isCol
    rw [isPlace', Option.bind_some, item'] at read
    exact read
  size f isSize := by
    have measured : s.heap.matrixSize (.list m) = .ok (s.heap.newList [.int rows, .int cols]) := by
      obtain ⟨n, rfl⟩ := Nat.exists_eq_add_one.mpr some_row
      have first := isMatrix.cells 0 some_row
      have lines := isMatrix.lines
      rw [range_succ_eq_map, map_cons] at lines
      show Except.ok _ = _
      rw [lines]
      dsimp only
      rw [first]
      simp
    have made : Comes (fun n => applyBuiltin (eval n) .matrixSize [.list m]) s
        (some (s.heap.newList [.int rows, .int cols])) := by
      show Comes (fun _ => updateHeap fun h => h.matrixSize (.list m)) s _
      refine comes_updateHeap ?_
      rw [measured]
      exact .ok _
    refine ⟨_, _, comes_builtin isSize rfl (.cons (gives_var bound) .nil) nofun made, ?_⟩
    simp [Heap.list]

/-- A new matrix has the same value in each cell. Whatever cells are written then, by assignments
and calls in any order, each holds what was written to it last, or else its first value, and the
size stays the same. -/
theorem cells_independent {fill : Value} (isCreate : Builtin.ofName? f = some .createMatrix)
    (isRows : Counts s i rows) (isCols : Counts s j cols) (isFill : Gives s value fill)
    (some_row : 0 < rows) (some_col : 0 < cols) :
    ∃ m heap,
      Ends (fun n => eval n (.call f (some [i, j, value]))) s (.ok (.list m) { s with heap }) ∧
      ∀ t name nodes writes, t.heap = heap → t.env.get? name = some (.list m) →
        WritesCells name rows cols t nodes writes →
        ∃ u, Ends (fun n => runBlock (eval n) nodes) t (.ok () u) ∧
          ShowsMatrix u name rows cols (CellWrite.last fill writes) := by
  obtain ⟨first, gives, isInt⟩ := isRows
  obtain ⟨second, gives', isInt'⟩ := isCols
  obtain ⟨m, heap, row, new, isMatrix⟩ := s.heap.isMatrix_newMatrix rows cols fill
  have created : s.heap.createMatrix first second fill = .ok (.list m, heap) := by
    unfold Heap.createMatrix
    rw [isInt, isInt']
    dsimp only
    rw [if_neg (by simp; omega), Int.toNat_natCast, Int.toNat_natCast, new]
  have made : Comes (fun n => applyBuiltin (eval n) .createMatrix [first, second, fill]) s
      (some (.list m, heap)) := by
    show Comes (fun _ => updateHeap fun h => h.createMatrix first second fill) s _
    refine comes_updateHeap ?_
    rw [created]
    exact .ok _
  refine ⟨m, heap, comes_builtin isCreate rfl (.cons gives (.cons gives' (.cons isFill .nil)))
    nofun made, ?_⟩
  rintro t name nodes writes rfl bound all
  obtain ⟨heap, ended, isMatrix'⟩ := ends_writes bound isMatrix all
  exact ⟨_, ended, showsMatrix_of_isMatrix (s := { t with heap }) bound some_row isMatrix'⟩

/-- Two cells are written, by an assignment and by a call, and read. -/
theorem cells_independent_square :
    ∃ m heap, Ends (fun n => eval n (.call "create_matrix"
        (some [.number (.int 2), .number (.int 2), .number (.int 0)]))) {} (.ok (.list m) { heap }) ∧
      ∃ u, Ends (fun n => runBlock (eval n) [
          .assignIndex (.lookup (.var "m") (.number (.int 0))) (.number (.int 1)) (.text "a"),
          .call "set_at" (some [.var "m", .number (.int 0), .number (.int 1), .text "b"])])
          { env := [("m", .list m)], heap } (.ok () u) ∧
        Gives u (.lookup (.lookup (.var "m") (.number (.int 0))) (.number (.int 1))) (.text "b") ∧
        Gives u (.lookup (.lookup (.var "m") (.number (.int 1))) (.number (.int 1))) (.int 0) := by
  have counts : ∀ (s : Session) (n : Nat), Counts s (.number (.int n)) n :=
    fun s n => ⟨.int n, Ends.eval (.pure _ s), rfl⟩
  have text : ∀ (s : Session) (a : String), Gives s (.text a) (.text a) :=
    fun s a => Ends.eval (.pure _ s)
  have zero : Gives {} (.number (.int 0)) (.int 0) := Ends.eval (.pure _ _)
  obtain ⟨m, heap, created, after⟩ := cells_independent (f := "create_matrix") (by decide)
    (counts {} 2) (counts {} 2) zero (by decide) (by decide)
  obtain ⟨u, ended, shows⟩ := after { env := [("m", .list m)], heap } "m" _
    [⟨0, 1, .text "a"⟩, ⟨0, 1, .text "b"⟩] rfl rfl
    (.cons (by decide) (by decide) (.assignment (counts _ 0) (counts _ 1) (text _ "a")) fun _ t _ =>
      .cons (by decide) (by decide)
        (.setAt (f := "set_at") (by decide) (counts t 0) (counts t 1) (text t "b"))
        fun _ t _ => .nil t)
  refine ⟨m, heap, created, u, ended, ?_, ?_⟩
  · exact shows.cells _ _ 0 1 (counts u 0) (counts u 1) (by decide) (by decide)
  · exact shows.cells _ _ 1 1 (counts u 1) (counts u 1) (by decide) (by decide)

end Eval

end Hetman
