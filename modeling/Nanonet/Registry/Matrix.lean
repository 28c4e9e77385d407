import Nanonet.Registry.Access

/-!
# Matrices in the registry

`convert` of a value to a list of lists of numbers, with its three shape modes, and
`check_vector_vector_double`. The loop over the rows keeps that the rows converted so far are the
first rows of the output and fit each other (`convertRows_spec`), so what comes out is the whole
value or an exception, whatever the output held before (`convertMatrix_exact`).
-/

namespace Nanonet

variable {D : Type} [NumGet D]

/-- The context that the loop puts before the error of row `i`. -/
def rowContext (i : Nat) : String := "row " ++ toString (i + 1) ++ ": "

/-- The loop of the matrix `convert` from row `i` on, into `ret`. -/
def convertRows (columns : Int) : Nat → List (Value D) → Call (List (List D)) Unit
  | _, [] => pure ()
  | i, a :: as => fun ret =>
    match convertList a.any (-1) (ret.getD i []) with
    | .error e row => .error (e.within (rowContext i)) (ret.set i row)
    | .ok _ row =>
      let ret := ret.set i row
      if (0 ≤ columns ∧ (row.length : Int) ≠ columns) ∨
          (columns = -2 ∧ 1 ≤ i ∧ row.length ≠ (ret.headD []).length) then
        let n := if columns = -2 then ((ret.headD []).length : Int) else columns
        .error ((shouldHave n "column(s)").within (rowContext i)) ret
      else convertRows columns (i + 1) as ret

/-- `convert( a , ret , rows , columns )` for a list of lists of numbers. -/
def convertMatrix (a : StdAny D) (rows columns : Int) : Call (List (List D)) Unit := fun ret =>
  if -1 ≤ rows ∧ -2 ≤ columns then
    match convert (List (Value D)) a with
    | .error e => .error e ret
    | .ok v =>
      if 0 ≤ rows ∧ (v.length : Int) ≠ rows then .error (shouldHave rows "row(s)") ret
      else convertRows columns 0 v (resize v.length [] ret)
  else .error (.assertionFailure "rows >= -1 && columns >= -2") ret

def Registry.checkVectorVectorDouble (reg : Registry D) (key : Text) (rows columns : Int := -1) :
    Except Exn (List (List D)) :=
  reg.checkConverted key fun a => convertMatrix a rows columns

/-! ### The rows -/

/-- The rows of a list, each a list of numbers. -/
def castRows (v : List (Value D)) : Option (List (List D)) := v.mapM fun a => listOf D a.any (-1)

/-- The row after the rows `m` has the number of columns that is asked for. -/
def RowFits (columns : Int) (m : List (List D)) (row : List D) : Prop :=
  (0 ≤ columns → (row.length : Int) = columns) ∧
    (columns = -2 → m ≠ [] → row.length = (m.headD []).length)

/-- Each of the rows after `m` fits those before it. -/
def FitsFrom (columns : Int) : List (List D) → List (List D) → Prop
  | _, [] => True
  | m, row :: rows => RowFits columns m row ∧ FitsFrom columns (m ++ [row]) rows

omit [NumGet D] in
theorem not_rowFits_iff {columns : Int} {m rest : List (List D)} {row : List D} :
    (0 ≤ columns ∧ (row.length : Int) ≠ columns) ∨
        (columns = -2 ∧ 1 ≤ m.length ∧ row.length ≠ ((m ++ row :: rest).headD []).length) ↔
      ¬ RowFits columns m row := by
  cases m with
  | nil => simp [RowFits]
  | cons r m =>
    simp only [RowFits, List.cons_append, List.headD_cons, List.length_cons]
    have hne : r :: m ≠ [] := List.cons_ne_nil r m
    have hlen : 1 ≤ m.length + 1 := Nat.le_add_left 1 _
    tauto

theorem convertRows_spec (columns : Int) (as : List (Value D)) (m : List (List D))
    {rest : List (List D)} (hrest : rest.length = as.length) :
    (∃ rows, castRows as = some rows ∧ FitsFrom columns m rows ∧
      convertRows columns m.length as (m ++ rest) = .ok () (m ++ rows)) ∨
    ((∀ rows, castRows as = some rows → ¬ FitsFrom columns m rows) ∧
      ∃ what ret', convertRows columns m.length as (m ++ rest) =
        .error (.runtimeError what) ret') := by
  induction as generalizing m rest with
  | nil =>
    obtain rfl : rest = [] := List.length_eq_zero_iff.1 hrest
    exact .inl ⟨[], rfl, trivial, rfl⟩
  | cons a as ih =>
    obtain ⟨old, rest, rfl⟩ : ∃ old rest', rest = old :: rest' := by
      cases rest with
      | nil => simp at hrest
      | cons old rest' => exact ⟨old, rest', rfl⟩
    have hrest' : rest.length = as.length := by simpa using hrest
    have hget : (m ++ old :: rest).getD m.length [] = old := by simp
    have hset : ∀ row, (m ++ old :: rest).set m.length row = m ++ row :: rest := by simp
    have hspec := convertList_spec (T := D) (a := a.any) (n := -1) (Int.le_refl _) old
    have hcons : castRows (a :: as) =
        (listOf D a.any (-1)).bind fun row => (castRows as).map fun rows => row :: rows :=
      mapM_cons_bind a as
    rw [hcons]
    simp only [convertRows, hget, hset]
    cases hlist : listOf D a.any (-1) with
    | none =>
      rw [hlist] at hspec
      obtain ⟨what, row, hconvert⟩ := hspec
      refine .inr ⟨by simp, ?_⟩
      rw [hconvert]
      exact ⟨_, _, rfl⟩
    | some row =>
      rw [hlist] at hspec
      dsimp only at hspec
      rw [hspec]
      by_cases hfits : RowFits columns m row
      · simp only [if_neg (mt not_rowFits_iff.1 (not_not.2 hfits))]
        have happend : m ++ row :: rest = m ++ [row] ++ rest := by simp
        have hlength : m.length + 1 = (m ++ [row]).length := by simp
        rw [happend, hlength]
        obtain ⟨rows, hrows, hall, hconvert⟩ | ⟨hnone, herror⟩ := ih (m ++ [row]) hrest'
        · exact .inl ⟨row :: rows, by simp [hrows], ⟨hfits, hall⟩, by rw [hconvert]; simp⟩
        · refine .inr ⟨fun rows hrows => ?_, herror⟩
          obtain ⟨rows', hrows', rfl⟩ : ∃ rows', castRows as = some rows' ∧ row :: rows' = rows := by
            simpa using hrows
          exact fun hfrom => hnone rows' hrows' hfrom.2
      · simp only [if_pos (not_rowFits_iff.2 hfits)]
        refine .inr ⟨fun rows hrows => ?_, _, _, rfl⟩
        obtain ⟨rows', -, rfl⟩ : ∃ rows', castRows as = some rows' ∧ row :: rows' = rows := by
          simpa using hrows
        exact fun hfrom => hfits hfrom.1

omit [NumGet D] in
theorem fitsFrom_iff (columns : Int) (m rows : List (List D)) :
    FitsFrom columns m rows ↔ (0 ≤ columns → ∀ row ∈ rows, (row.length : Int) = columns) ∧
      (columns = -2 → ∀ row ∈ rows, row.length = ((m ++ rows).headD []).length) := by
  induction rows generalizing m with
  | nil => simp [FitsFrom]
  | cons row rows ih =>
    have hhead : m ++ [row] ++ rows = m ++ row :: rows := by simp
    rw [FitsFrom, ih, hhead, RowFits]
    cases m with
    | nil => simp; tauto
    | cons r m => simp; tauto

omit [NumGet D] in
theorem castRows_eq_some {v : List (Value D)} {m : List (List D)} :
    castRows v = some m ↔ v = m.map fun row => .list (row.map .num) :=
  mapM_eq_some_iff fun _ _ => listOf_value_eq_some anyCast_num

/-- The value of a matrix with the shape that is asked for. -/
structure IsMatrix (a : Value D) (rows columns : Int) (m : List (List D)) : Prop where
  value : a = .list (m.map fun row => .list (row.map .num))
  rowCount : 0 ≤ rows → (m.length : Int) = rows
  columnCount : 0 ≤ columns → ∀ row ∈ m, (row.length : Int) = columns
  rectangular : columns = -2 → ∀ row ∈ m, ∀ row' ∈ m, row.length = row'.length

omit [NumGet D] in
theorem isMatrix_iff {v : List (Value D)} {rows columns : Int} {m : List (List D)}
    (hlen : ¬ (0 ≤ rows ∧ (v.length : Int) ≠ rows)) :
    IsMatrix (.list v) rows columns m ↔
      (v = m.map fun row => .list (row.map .num)) ∧ FitsFrom columns [] m := by
  rw [fitsFrom_iff]
  constructor
  · intro h
    refine ⟨by simpa using h.value, h.columnCount, fun hcolumns row hrow => ?_⟩
    cases m with
    | nil => simp at hrow
    | cons r m => exact h.rectangular hcolumns row hrow r (by simp)
  · rintro ⟨rfl, hcount, hrectangular⟩
    refine ⟨rfl, fun hrows => ?_, hcount, fun hcolumns row hrow row' hrow' => ?_⟩
    · by_contra hne
      exact hlen ⟨hrows, by simpa using hne⟩
    · rw [hrectangular hcolumns row hrow, hrectangular hcolumns row' hrow']

theorem convertMatrix_spec {a : Value D} {rows columns : Int} (hrows : -1 ≤ rows)
    (hcolumns : -2 ≤ columns) (ret : List (List D)) :
    (∃ m, IsMatrix a rows columns m ∧ convertMatrix a.any rows columns ret = .ok () m) ∨
    ((¬ ∃ m, IsMatrix a rows columns m) ∧
      ∃ what ret', convertMatrix a.any rows columns ret = .error (.runtimeError what) ret') := by
  unfold convertMatrix
  rw [if_pos ⟨hrows, hcolumns⟩]
  cases a with
  | list v =>
    simp only [Value.any, convert, Held.anyCast]
    split_ifs with hlen
    · refine .inr ⟨?_, _, _, rfl⟩
      rintro ⟨m, hm⟩
      obtain rfl : v = _ := by simpa using hm.value
      exact hlen.2 (by simpa using hm.rowCount hlen.1)
    · obtain ⟨m, hm, hfits, hconvert⟩ | ⟨hnone, herror⟩ :=
        convertRows_spec columns v [] (length_resize v.length [] ret)
      · rw [castRows_eq_some] at hm
        refine .inl ⟨m, (isMatrix_iff hlen).2 ⟨hm, hfits⟩, hconvert⟩
      · refine .inr ⟨?_, herror⟩
        rintro ⟨m, hm⟩
        obtain ⟨hv, hfits⟩ := (isMatrix_iff hlen).1 hm
        exact hnone m (castRows_eq_some.2 hv) hfits
  | _ =>
    refine .inr ⟨?_, _, _, rfl⟩
    rintro ⟨m, hm⟩
    cases hm.value

omit [NumGet D] in
theorem IsMatrix.unique {a : Value D} {rows columns : Int} {m m' : List (List D)}
    (h : IsMatrix a rows columns m) (h' : IsMatrix a rows columns m') : m = m' := by
  have hmap := h.value.symm.trans h'.value
  have hinner : Function.Injective fun row : List D => Value.list (row.map Value.num) :=
    fun row row' hrow =>
      List.map_injective_iff.2 (fun _ _ hd => Value.num.inj hd) (Value.list.inj hrow)
  exact List.map_injective_iff.2 hinner (Value.list.inj hmap)

theorem convertMatrix_ok_iff {a : Value D} {rows columns : Int} (hrows : -1 ≤ rows)
    (hcolumns : -2 ≤ columns) (ret m : List (List D)) :
    convertMatrix a.any rows columns ret = .ok () m ↔ IsMatrix a rows columns m := by
  obtain ⟨m', hm', hok⟩ | ⟨hnone, what, ret', herror⟩ := convertMatrix_spec hrows hcolumns ret
  · rw [hok]
    constructor
    · intro h
      rwa [← (EStateM.Result.ok.inj h).2]
    · intro hm
      rw [hm.unique hm']
  · rw [herror]
    exact iff_of_false nofun fun hm => hnone ⟨m, hm⟩

theorem convertMatrix_throws {a : Value D} {rows columns : Int} (hrows : -1 ≤ rows)
    (hcolumns : -2 ≤ columns) (ret : List (List D)) (hnone : ¬ ∃ m, IsMatrix a rows columns m) :
    ∃ what ret', convertMatrix a.any rows columns ret = .error (.runtimeError what) ret' := by
  obtain ⟨m, hm, -⟩ | ⟨-, herror⟩ := convertMatrix_spec hrows hcolumns ret
  · exact absurd ⟨m, hm⟩ hnone
  · exact herror

/-- **Matrix conversion checks the shape exactly.** It returns iff the value is a matrix of the shape
asked for, with that matrix as the whole output, and throws otherwise; the check of a key returns the
matrix, or throws what the conversion threw with the key in front of it. -/
theorem convertMatrix_exact (a : Value D) {rows columns : Int} (hrows : -1 ≤ rows)
    (hcolumns : -2 ≤ columns) (ret : List (List D)) :
    (∀ m, convertMatrix a.any rows columns ret = .ok () m ↔ IsMatrix a rows columns m) ∧
    ((¬ ∃ m, IsMatrix a rows columns m) →
      ∃ what ret', convertMatrix a.any rows columns ret = .error (.runtimeError what) ret') ∧
    ∀ (reg : Registry D) (key : Text) (at_ : String), reg.kvMap key = some ⟨a, at_⟩ →
      (∀ m, reg.checkVectorVectorDouble key rows columns = .ok m ↔ IsMatrix a rows columns m) ∧
      ((¬ ∃ m, IsMatrix a rows columns m) → ∃ what ret',
        convertMatrix a.any rows columns [] = .error (.runtimeError what) ret' ∧
        reg.checkVectorVectorDouble key rows columns =
          .error (.runtimeError ("key " ++ String.ofList key ++ " " ++ at_ ++ ": " ++ what))) := by
  refine ⟨convertMatrix_ok_iff hrows hcolumns ret, convertMatrix_throws hrows hcolumns ret,
    fun reg key at_ hkey => ⟨fun m => ?_, fun hnone => ?_⟩⟩
  · have hcheck := checkConverted_defined hkey fun a => convertMatrix a rows columns
    rw [← convertMatrix_ok_iff hrows hcolumns [], Registry.checkVectorVectorDouble, hcheck]
    cases convertMatrix a.any rows columns [] <;> simp
  · obtain ⟨what, ret', herror⟩ := convertMatrix_throws hrows hcolumns [] hnone
    have hcheck := checkConverted_defined hkey fun a => convertMatrix a rows columns
    refine ⟨what, ret', herror, ?_⟩
    rw [Registry.checkVectorVectorDouble, hcheck, herror]
    rfl

/-- `{{1,2},{3,4}}` as a rectangular matrix, into an output that held something. -/
theorem convertMatrix_exact_square :
    convertMatrix (Value.list [.list [.num 1, .num 2], .list [.num 3, .num (4 : ℕ)]]).any (-1) (-2)
      [[9, 9, 9]] = .ok () [[1, 2], [3, 4]] :=
  ((convertMatrix_exact _ (by decide) (by decide) _).1 _).2
    ⟨rfl, by decide, by decide, by decide⟩

end Nanonet
