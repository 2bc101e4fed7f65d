import Mathlib.Data.List.Basic

/-!
# The last that sets a value

Of a list of items some set a value, and what stands at the end is what the last of them sets (`lastSet`).  Two lists
leave the same exactly if their last items that set the value `Concur` (`lastSet_eq_iff`).
-/

namespace LastSet

variable {α β : Type*} {f : α → Option β} {P : α → Bool} {same : α → α → Prop} {was : α → Prop} {o : α}
  {os os' : List α} {e d : Option α} {b : β}

/-- The value that the last of the items that set it leaves. -/
def lastSet (f : α → Option β) (os : List α) (b : β) : β := (os.filterMap f).getLastD b

theorem lastSet_nil : lastSet f [] b = b := rfl

theorem lastSet_cons : lastSet f (o :: os) b = lastSet f os ((f o).getD b) := by
  unfold lastSet
  rw [List.filterMap_cons]
  cases f o with
  | none => rfl
  | some v => exact List.getLastD_cons ..

theorem lastSet_append : lastSet f (os ++ os') b = lastSet f os' (lastSet f os b) := by
  induction os generalizing b with
  | nil => rfl
  | cons o os ih => rw [List.cons_append, lastSet_cons, lastSet_cons, ih]

theorem lastSet_of_forall : ∀ {os : List α}, (∀ o ∈ os, ∀ v, f o = some v → v = b) → lastSet f os b = b
  | [], _ => rfl
  | o :: os, h => by
    have hhead : (f o).getD b = b := by
      cases hf : f o with
      | none => rfl
      | some v => exact h o (List.mem_cons_self ..) v hf
    rw [lastSet_cons, hhead]
    exact lastSet_of_forall fun o' ho' => h o' (List.mem_cons_of_mem _ ho')

/-! ## The item that decides -/

/-- The last of the items that `P` holds of. -/
def lastThat (P : α → Bool) (os : List α) : Option α := (os.filter P).getLast?

theorem lastThat_cons (o : α) (os : List α) :
    lastThat P (o :: os) = (lastThat P os).or (if P o then some o else none) := by
  unfold lastThat
  rw [List.filter_cons]
  split
  · rw [List.getLast?_cons]
    cases (os.filter P).getLast? <;> rfl
  · rw [Option.or_none]

theorem lastThat_some (h : lastThat P os = some o) : P o = true :=
  (List.mem_filter.mp (List.mem_of_getLast? h)).2

/-- What the last of them sets is what stands at the end. -/
theorem lastSet_eq (hP : ∀ o, P o = (f o).isSome) : ∀ (os : List α) (b : β),
    lastSet f os b = ((lastThat P os).bind f).getD b
  | [], _ => rfl
  | o :: os, b => by
    rw [lastSet_cons, lastSet_eq hP os, lastThat_cons, hP]
    cases hlast : lastThat P os with
    | none => cases hf : f o <;> simp [hf]
    | some o' =>
      obtain ⟨b', hb'⟩ := Option.isSome_iff_exists.mp ((hP o').symm.trans (lastThat_some hlast))
      simp [hb']

/-- What decides in one list and what decides in the other: they are the `same`, or there is only one of them and it
leaves what there `was`. -/
def Concur (same : α → α → Prop) (was : α → Prop) : Option α → Option α → Prop
  | some e, some d => same e d
  | some o, none => was o
  | none, some o => was o
  | none, none => True

theorem concur_iff (he : ∀ o ∈ e, (f o).isSome) (hd : ∀ o ∈ d, (f o).isSome)
    (hsame : ∀ o o', (f o).isSome → (f o').isSome → (f o = f o' ↔ same o o'))
    (hwas : ∀ o, (f o).isSome → (f o = some b ↔ was o)) :
    (e.bind f).getD b = (d.bind f).getD b ↔ Concur same was e d := by
  cases e with
  | none =>
    cases d with
    | none => exact iff_of_true rfl trivial
    | some o =>
      obtain ⟨b', hb'⟩ := Option.isSome_iff_exists.mp (hd o rfl)
      have h := hwas o (hd o rfl)
      rw [hb', Option.some.injEq, eq_comm] at h
      rw [Option.bind_none, Option.bind_some, hb']
      exact h
  | some o =>
    obtain ⟨b', hb'⟩ := Option.isSome_iff_exists.mp (he o rfl)
    cases d with
    | none =>
      have h := hwas o (he o rfl)
      rw [hb', Option.some.injEq] at h
      rw [Option.bind_none, Option.bind_some, hb']
      exact h
    | some o' =>
      obtain ⟨b'', hb''⟩ := Option.isSome_iff_exists.mp (hd o' rfl)
      have h := hsame o o' (he o rfl) (hd o' rfl)
      rw [hb', hb'', Option.some.injEq] at h
      rw [Option.bind_some, Option.bind_some, hb', hb'']
      exact h

/-- **Two lists leave the same** exactly if what decides in them concurs. -/
theorem lastSet_eq_iff (hP : ∀ o, P o = (f o).isSome)
    (hsame : ∀ o o', (f o).isSome → (f o').isSome → (f o = f o' ↔ same o o'))
    (hwas : ∀ o, (f o).isSome → (f o = some b ↔ was o)) :
    lastSet f os b = lastSet f os' b ↔ Concur same was (lastThat P os) (lastThat P os') := by
  have hset : ∀ {os : List α}, ∀ o ∈ lastThat P os, (f o).isSome := fun o ho => hP o ▸ lastThat_some ho
  rw [lastSet_eq hP, lastSet_eq hP]
  exact concur_iff hset hset hsame hwas

end LastSet
