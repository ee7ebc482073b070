import QuasiDefinite.Checked

namespace QuasiDefinite

theorem getD_of_getElem? {α : Type} {values : Array α} {index : Nat}
    {value fallback : α} (found : values[index]? = some value) :
    values.getD index fallback = value := by
  rw [Array.getD_eq_getD_getElem?, found, Option.getD_some]

namespace Checked

variable {ε α β σ : Type}

@[simp] theorem ok_bind (value : α) (next : α → Except ε β) :
    (Except.ok value >>= next) = next value :=
  rfl

@[simp] theorem error_bind (error : ε) (next : α → Except ε β) :
    (Except.error error >>= next) = .error error :=
  rfl

@[simp] theorem pure_eq_ok (value : α) :
    (pure value : Except ε α) = .ok value :=
  rfl

@[simp] theorem throw_eq_error (error : ε) :
    (throw error : Except ε α) = .error error :=
  rfl

theorem liftM_eq (run : Except ε α) : (liftM run : Except ε α) = run :=
  rfl

theorem bind_eq_ok_iff {run : Except ε α} {next : α → Except ε β}
    {value : β} :
    (run >>= next) = .ok value ↔
      ∃ inner, run = .ok inner ∧ next inner = .ok value := by
  cases run with
  | error error => simp
  | ok inner => simp

theorem check_bind_eq_ok_iff {check : Except ε Unit} {run : Except ε β}
    {value : β} :
    (check >>= fun _ => run) = .ok value ↔
      check = .ok () ∧ run = .ok value := by
  cases check with
  | error error => simp
  | ok _ => simp

theorem map_eq_ok_iff {run : Except ε α} {look : α → β} {value : β} :
    look <$> run = .ok value ↔
      ∃ inner, run = .ok inner ∧ look inner = value := by
  cases run with
  | error error => simp [Functor.map, Except.map]
  | ok inner => simp [Functor.map, Except.map]

theorem bind_ok_eq_error_iff {run : Except ε α} {value : α → β} {error : ε} :
    (run >>= fun inner => .ok (value inner)) = .error error ↔
      run = .error error := by
  cases run with
  | error _ => rw [error_bind, Except.error.injEq, Except.error.injEq]
  | ok _ => exact iff_of_false nofun nofun

theorem bind_congr_of_map {γ : Type} {look : α → γ}
    {run run' : Except ε α} {next next' : α → Except ε β}
    (same : look <$> run' = look <$> run)
    (alike : ∀ value' value, look value' = look value →
      next' value' = next value) :
    run' >>= next' = run >>= next := by
  cases run' with
  | error _ => cases run with
    | error _ =>
        cases same
        rfl
    | ok _ => cases same
  | ok value' => cases run with
    | error _ => cases same
    | ok value => exact alike value' value (Except.ok.inj same)

theorem eq_ok_of_toOption {run : Except ε α} {value : α}
    (found : run.toOption = some value) : run = .ok value := by
  cases run with
  | error _ => cases found
  | ok _ =>
      cases found
      rfl

theorem set_eq_setIfInBounds {values : Array α} {index : Nat} {value : α}
    (inside : index < values.size) :
    values.set index value inside = values.setIfInBounds index value := by
  simp [Array.setIfInBounds, inside]

theorem modify_eq_bind (values : Array α) (index : Nat) (change : α → α) :
    modify values index change =
      get values index >>= fun old => set values index (change old) := by
  by_cases inside : index < values.size
  · rw [get_eq_ok inside, ok_bind, set_eq_ok inside, modify, if_pos inside]
    congr 1
    refine Array.ext (by simp) fun k _ _ => ?_
    rw [Array.getElem_modify, Array.getElem_set]
    split
    · next same =>
      subst same
      rfl
    · rfl
  · rw [get, dif_neg inside, error_bind, modify, if_neg inside]

theorem ext_of_size {size : Nat} {left right : Array α}
    (left_size : left.size = size) (right_size : right.size = size)
    (same : ∀ k : Nat, k < size → left[k]? = right[k]?) : left = right := by
  apply Array.ext_getElem?
  intro k
  by_cases inside : k < size
  · exact same k inside
  · have outside := Nat.le_of_not_lt inside
    rw [Array.getElem?_eq_none (by rwa [left_size]),
      Array.getElem?_eq_none (by rwa [right_size])]

theorem foldlM_runs {step : σ → α → Except ε σ} {entries : List α}
    (invariant : List α → σ → Prop) {start : σ} (initial : invariant [] start)
    (advance : ∀ done entry rest state, entries = done ++ entry :: rest →
      invariant done state →
      ∃ next, step state entry = .ok next ∧ invariant (done ++ [entry]) next) :
    ∃ final, entries.foldlM step start = .ok final ∧
      invariant entries final := by
  suffices runs : ∀ rest done state, entries = done ++ rest →
      invariant done state → ∃ final, rest.foldlM step state = .ok final ∧
        invariant entries final from runs entries [] start rfl initial
  intro rest
  induction rest with
  | nil =>
      intro done state split holds
      rw [List.append_nil] at split
      exact ⟨state, rfl, split ▸ holds⟩
  | cons entry rest ih =>
      intro done state split holds
      obtain ⟨next, ran, holds⟩ := advance done entry rest state split holds
      obtain ⟨final, ran', holds⟩ :=
        ih (done ++ [entry]) next (by simpa using split) holds
      exact ⟨final, by rw [List.foldlM_cons, ran, ok_bind, ran'], holds⟩

theorem foldlM_keeps {step : σ → α → Except ε σ} {entries : List α}
    (kept : σ → Prop) {start : σ} (initial : kept start)
    (advance : ∀ state, ∀ entry ∈ entries, kept state →
      ∃ next, step state entry = .ok next ∧ kept next) :
    ∃ final, entries.foldlM step start = .ok final ∧ kept final := by
  apply foldlM_runs (fun _ state => kept state) initial
  intro done entry rest state split holds
  exact advance state entry (by simp [split]) holds

/-- A loop over `0, ..., size - 1`; the invariant counts the steps. -/
theorem foldlM_range_runs {step : σ → Nat → Except ε σ} {size : Nat}
    (invariant : Nat → σ → Prop) {start : σ} (initial : invariant 0 start)
    (advance : ∀ index state, index < size → invariant index state →
      ∃ next, step state index = .ok next ∧ invariant (index + 1) next) :
    ∃ final, (List.range size).foldlM step start = .ok final ∧
      invariant size final := by
  obtain ⟨final, ran, holds⟩ :=
    @foldlM_runs _ _ _ step (List.range size)
      (fun done => invariant done.length) start initial (by
      intro done entry rest state split holds
      have lengths := congrArg List.length split
      have here : (List.range size)[done.length]? = some entry := by
        simp [split]
      simp only [List.length_range, List.length_append, List.length_cons]
        at lengths
      rw [List.getElem?_range (by omega), Option.some.injEq] at here
      subst here
      rw [List.length_append, List.length_singleton]
      exact advance done.length state (by omega) holds)
  exact ⟨final, ran, by simpa using holds⟩

theorem foldlM_reverse_range_runs {step : σ → Nat → Except ε σ} {size : Nat}
    (invariant : Nat → σ → Prop) {start : σ} (initial : invariant size start)
    (advance : ∀ index state, index < size → invariant (index + 1) state →
      ∃ next, step state index = .ok next ∧ invariant index next) :
    ∃ final, (List.range size).reverse.foldlM step start = .ok final ∧
      invariant 0 final := by
  induction size generalizing start with
  | zero => exact ⟨start, rfl, initial⟩
  | succ size ih =>
      obtain ⟨next, ran, holds⟩ :=
        advance size start (Nat.lt_succ_self size) initial
      obtain ⟨final, ran', holds⟩ := ih holds fun index state inside =>
        advance index state (Nat.lt_succ_of_lt inside)
      refine ⟨final, ?_, holds⟩
      rw [List.range_succ, List.reverse_append, List.reverse_singleton,
        List.singleton_append, List.foldlM_cons, ran, ok_bind, ran']

theorem foldlM_eq_foldl {step : σ → α → Except ε σ} {next : σ → α → σ}
    {entries : List α} (runs : ∀ state, ∀ entry ∈ entries,
      step state entry = .ok (next state entry)) (start : σ) :
    entries.foldlM step start = .ok (entries.foldl next start) := by
  induction entries generalizing start with
  | nil => rfl
  | cons entry rest ih =>
      rw [List.foldlM_cons, runs start entry (List.mem_cons_self ..), ok_bind,
        List.foldl_cons]
      exact ih (fun state other member =>
        runs state other (List.mem_cons_of_mem _ member)) _

theorem foldl_holds {step : σ → α → σ} {entries : List α}
    (invariant : List α → σ → Prop) {start : σ} (initial : invariant [] start)
    (advance : ∀ done entry rest state, entries = done ++ entry :: rest →
      invariant done state → invariant (done ++ [entry]) (step state entry)) :
    invariant entries (entries.foldl step start) := by
  obtain ⟨final, ran, holds⟩ := @foldlM_runs Unit _ _
    (fun state entry => .ok (step state entry)) entries invariant start initial
    fun done entry rest state split holds =>
      ⟨_, rfl, advance done entry rest state split holds⟩
  rw [foldlM_eq_foldl fun _ _ _ => rfl] at ran
  exact Except.ok.inj ran ▸ holds

/-- Where what is refused does not depend on the state, a loop refuses its first
entry to be refused. -/
theorem foldlM_eq_of_refusal {step : σ → α → Except ε σ} {next : σ → α → σ}
    {refusal : α → Option ε}
    (stops : ∀ state entry error, refusal entry = some error →
      step state entry = .error error)
    (goes : ∀ state entry, refusal entry = none →
      step state entry = .ok (next state entry))
    (entries : List α) (start : σ) :
    entries.foldlM step start = (entries.findSome? refusal).elim
      (.ok (entries.foldl next start)) .error := by
  induction entries generalizing start with
  | nil => rfl
  | cons entry rest ih =>
      rw [List.foldlM_cons, List.findSome?_cons]
      cases refused : refusal entry with
      | some error =>
          rw [stops start entry error refused, error_bind]
          rfl
      | none => rw [goes start entry refused, ok_bind, ih, List.foldl_cons]

theorem mapM_runs {run : α → Except ε β} {value : α → β} {entries : List α}
    (runs : ∀ entry ∈ entries, run entry = .ok (value entry)) :
    entries.mapM run = .ok (entries.map value) := by
  induction entries with
  | nil => rfl
  | cons entry rest ih =>
      rw [List.mapM_cons, runs entry (List.mem_cons_self ..), ok_bind,
        ih fun other member => runs other (List.mem_cons_of_mem _ member)]
      rfl

theorem exists_of_mapM {run : α → Except ε β} {entries : List α}
    {values : List β} (ran : entries.mapM run = .ok values) :
    ∀ entry ∈ entries, ∃ value, run entry = .ok value := by
  induction entries generalizing values with
  | nil => simp
  | cons entry rest ih =>
      rw [List.mapM_cons, bind_eq_ok_iff] at ran
      obtain ⟨value, first, ran⟩ := ran
      rw [bind_eq_ok_iff] at ran
      obtain ⟨others, ran, _⟩ := ran
      intro other member
      cases member with
      | head => exact ⟨value, first⟩
      | tail _ member => exact ih ran other member

theorem forM_eq_ok {check : α → Except ε Unit} {entries : List α}
    (passed : entries.forM check = .ok ()) :
    ∀ entry ∈ entries, check entry = .ok () := by
  induction entries with
  | nil => simp
  | cons entry rest ih =>
      rw [List.forM_eq_forM, List.forM_cons, bind_eq_ok_iff] at passed
      obtain ⟨⟨⟩, first, others⟩ := passed
      intro other member
      cases member with
      | head => exact first
      | tail _ member => exact ih others other member

theorem forM_runs {check : α → Except ε Unit} {entries : List α}
    (passes : ∀ entry ∈ entries, check entry = .ok ()) :
    entries.forM check = .ok () := by
  induction entries with
  | nil => rfl
  | cons entry rest ih =>
      rw [List.forM_eq_forM, List.forM_cons,
        passes entry (List.mem_cons_self ..), ok_bind]
      exact ih fun other member => passes other (List.mem_cons_of_mem _ member)

theorem forM_eq_error_iff {check : α → Except ε Unit} {entries : List α}
    {error : ε} :
    entries.forM check = .error error ↔
      ∃ (k : Nat) (entry : α), entries[k]? = some entry ∧
        check entry = .error error ∧ ∀ (j : Nat) (other : α), j < k →
          entries[j]? = some other → check other = .ok () := by
  induction entries with
  | nil => exact iff_of_false nofun nofun
  | cons entry rest ih =>
      rw [List.forM_eq_forM, List.forM_cons, ← List.forM_eq_forM]
      cases checked : check entry with
      | error first =>
          rw [error_bind]
          constructor
          · rintro ⟨⟩
            exact ⟨0, entry, rfl, checked, fun j _ below =>
              absurd below (Nat.not_lt_zero j)⟩
          · rintro ⟨k, other, found, failed, passed⟩
            cases k with
            | zero =>
                cases found
                rw [checked] at failed
                exact failed
            | succ k =>
                have first := passed 0 entry (Nat.succ_pos k) rfl
                rw [checked] at first
                cases first
      | ok _ =>
          rw [ok_bind, ih]
          constructor
          · rintro ⟨k, other, found, failed, passed⟩
            refine ⟨k + 1, other, found, failed, fun j earlier below here => ?_⟩
            cases j with
            | zero =>
                cases here
                exact checked
            | succ j =>
                exact passed j earlier (Nat.lt_of_succ_lt_succ below) here
          · rintro ⟨k, other, found, failed, passed⟩
            cases k with
            | zero =>
                cases found
                rw [checked] at failed
                cases failed
            | succ k =>
                exact ⟨k, other, found, failed, fun j earlier below here =>
                  passed (j + 1) earlier (Nat.succ_lt_succ below) here⟩

theorem mapM_get_runs {values : Array α} {indices : List Nat}
    (small : ∀ index ∈ indices, index < values.size) :
    ∃ new, indices.mapM (get values) = .ok new ∧
      new.length = indices.length ∧ ∀ k index : Nat,
        indices[k]? = some index → new[k]? = values[index]? := by
  induction indices with
  | nil => exact ⟨[], rfl, rfl, by simp⟩
  | cons index rest ih =>
      have inside := small index (List.mem_cons_self ..)
      obtain ⟨new, ran, length, same⟩ := ih fun other member =>
        small other (List.mem_cons_of_mem _ member)
      refine ⟨values[index] :: new, ?_, by simp [length], ?_⟩
      · rw [List.mapM_cons, get_eq_ok inside, ok_bind, ran]
        rfl
      · intro k other found
        cases k with
        | zero =>
            obtain rfl : index = other := by simpa using found
            simp [inside]
        | succ k => exact same k other found

theorem foldlM_set_runs {indices : List Nat} {values : List α}
    {target : Array α} (small : ∀ index ∈ indices, index < target.size)
    (length_eq : indices.length = values.length)
    (distinct : ∀ k k' index : Nat, indices[k]? = some index →
      indices[k']? = some index → k = k') :
    ∃ new, (indices.zip values).foldlM
        (fun target entry => set target entry.1 entry.2) target = .ok new ∧
      new.size = target.size ∧ ∀ k index : Nat,
        indices[k]? = some index → new[index]? = values[k]? := by
  obtain ⟨new, ran, new_size, written⟩ :=
    @foldlM_runs _ _ _ (fun target entry => set target entry.1 entry.2)
      (indices.zip values)
      (fun done (new : Array α) => new.size = target.size ∧
        ∀ k index : Nat, k < done.length → indices[k]? = some index →
          new[index]? = values[k]?)
      target ⟨rfl, by simp⟩
      (by
        rintro done ⟨last, value⟩ rest new split ⟨new_size, written⟩
        have here : (indices.zip values)[done.length]? =
            some (last, value) := by simp [split]
        obtain ⟨foundIndex, foundValue⟩ := List.getElem?_zip_eq_some.mp here
        have inside : last < new.size := by
          rw [new_size]
          exact small last (List.mem_of_getElem? foundIndex)
        refine ⟨_, set_eq_ok_iff.mpr ⟨inside, rfl⟩,
          by simpa using new_size, fun k index below found => ?_⟩
        rw [List.length_append, List.length_singleton] at below
        cases Nat.lt_succ_iff_lt_or_eq.mp below with
        | inl earlier =>
            rw [Array.getElem?_setIfInBounds_ne]
            · exact written k index earlier found
            · intro same
              subst same
              exact Nat.ne_of_lt earlier (distinct _ _ _ found foundIndex)
        | inr same =>
            subst same
            obtain rfl : last = index :=
              Option.some.inj (foundIndex.symm.trans found)
            rw [Array.getElem?_setIfInBounds_self_of_lt inside, foundValue])
  refine ⟨new, ran, new_size, fun k index found => written k index ?_ found⟩
  have inside := (List.getElem?_eq_some_iff.mp found).1
  simpa [← length_eq] using inside

end Checked

end QuasiDefinite
