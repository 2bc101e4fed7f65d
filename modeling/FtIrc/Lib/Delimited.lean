import Mathlib

/-!
# Splitting a list at a delimiter

The search-and-erase loop over a delimiter `d`, on lists over any type with decidable equality:

* `find d s` — the position of the first occurrence of `d` in `s`.
* `split d s` — cut `s` at every occurrence of `d`, from the left; empty parts are dropped, and
  what follows the last delimiter is returned apart.
* `feed d` — the incremental use: chunks arrive one by one, the rest of the previous cut is put
  before each of them.
* `cut d s` — what stands in front of the first occurrence, and behind it.

Principal results: `split_pieces` (the loop inverts terminating pieces by the delimiter),
`exists_pieces` (every list is such a sequence of pieces and a tail) and `feed_eq_split` (cutting
a stream into chunks, anywhere, changes nothing).
-/

namespace Delimited

variable {α : Type*} [DecidableEq α] {d : List α}

/-- Position of the first occurrence of `d`. -/
def find (d : List α) : List α → Option Nat
  | [] => if d = [] then some 0 else none
  | b :: s => if d <+: b :: s then some 0 else (find d s).map (· + 1)

/-- The loop, with the number of rounds bounded: nonempty parts, and the rest. -/
def splitLoop (d : List α) : Nat → List α → List (List α) × List α
  | 0, s => ([], s)
  | n + 1, s =>
    match find d s with
    | none => ([], s)
    | some pos =>
      let r := splitLoop d n (s.drop (pos + d.length))
      (if 0 < pos then s.take pos :: r.1 else r.1, r.2)

/-- Every round removes at least one element, so `s.length` rounds are enough. -/
def split (d s : List α) : List (List α) × List α := splitLoop d s.length s

/-- `d` does not occur in `s`. -/
def Free (d s : List α) : Prop := ¬ d <:+: s

instance (d s : List α) : Decidable (Free d s) := inferInstanceAs (Decidable (¬ d <:+: s))

/-- The first occurrence of `d` in `p ++ d` is the one at the end. -/
def Piece (d p : List α) : Prop := find d (p ++ d) = some p.length

/-- No nonempty proper suffix of `d` is a prefix of `d`. -/
def Unbordered (d : List α) : Prop := ∀ k, 0 < k → k < d.length → ¬ d.drop k <+: d

/-! ## The search -/

theorem find_some_iff {s : List α} {i : Nat} (hd : d ≠ []) :
    find d s = some i ↔ d <+: s.drop i ∧ ∀ j < i, ¬ d <+: s.drop j := by
  induction s generalizing i with
  | nil => simp [find, hd]
  | cons b s ih =>
    simp only [find]
    split
    · rename_i hp
      constructor
      · rintro h; cases h; exact ⟨hp, fun j hj => absurd hj (by omega)⟩
      · rintro ⟨-, h⟩
        cases i with
        | zero => rfl
        | succ i => exact absurd hp (h 0 (by omega))
    · rename_i hp
      cases i with
      | zero => simp [hp]
      | succ i =>
        simp only [Option.map_eq_some_iff, Nat.add_right_cancel_iff, exists_eq_right, ih,
          List.drop_succ_cons]
        refine and_congr_right fun _ => ⟨fun h j hj => ?_, fun h j hj => h (j + 1) (by omega)⟩
        cases j with
        | zero => exact hp
        | succ j => exact h j (by omega)

theorem find_eq_none_iff {s : List α} (hd : d ≠ []) : find d s = none ↔ Free d s := by
  induction s with
  | nil => simp [find, Free, hd]
  | cons b s ih =>
    simp only [find, Free, List.infix_cons_iff, not_or]
    split
    · rename_i hp; simp [hp]
    · rename_i hp; simp [hp, ih, Free]

theorem find_some_le {s : List α} {i : Nat} (hd : d ≠ []) (h : find d s = some i) :
    i + d.length ≤ s.length := by
  have hp := ((find_some_iff hd).mp h).1.length_le
  have : 0 < d.length := List.length_pos_iff.mpr hd
  simp only [List.length_drop] at hp
  omega

/-- The list around the first occurrence. -/
theorem find_some_eq {s : List α} {i : Nat} (hd : d ≠ []) (h : find d s = some i) :
    s = s.take i ++ (d ++ s.drop (i + d.length)) := by
  obtain ⟨t, ht⟩ := ((find_some_iff hd).mp h).1
  have hdrop : s.drop (i + d.length) = t := by
    rw [← List.drop_drop, ← ht, List.drop_left]
  rw [hdrop, ht, List.take_append_drop]

/-- What is found in a list is found there when the list goes on. -/
theorem find_append {s t : List α} {i : Nat} (hd : d ≠ []) (h : find d s = some i) :
    find d (s ++ t) = some i := by
  have hle := find_some_le hd h
  obtain ⟨hp, hmin⟩ := (find_some_iff hd).mp h
  refine (find_some_iff hd).mpr ⟨?_, fun j hj hpre => hmin j hj ?_⟩
  · rw [List.drop_append_of_le_length (by omega)]
    exact hp.trans (List.prefix_append _ _)
  · rw [List.drop_append_of_le_length (by omega)] at hpre
    exact List.prefix_of_prefix_length_le hpre (List.prefix_append _ _)
      (by simp only [List.length_drop]; omega)

/-! ## The loop -/

/-- Enough rounds give one result. -/
theorem splitLoop_fuel (hd : d ≠ []) : ∀ (n m : Nat) (s : List α), s.length ≤ n → s.length ≤ m →
    splitLoop d n s = splitLoop d m s
  | 0, 0, _, _, _ => rfl
  | 0, m + 1, s, hn, _ => by
    have : s = [] := List.length_eq_zero_iff.mp (by omega)
    subst this
    simp [splitLoop, find, hd]
  | n + 1, 0, s, _, hm => by
    have : s = [] := List.length_eq_zero_iff.mp (by omega)
    subst this
    simp [splitLoop, find, hd]
  | n + 1, m + 1, s, hn, hm => by
    simp only [splitLoop]
    split
    · rfl
    · rename_i pos hpos
      have hle := find_some_le hd hpos
      have : 0 < d.length := List.length_pos_iff.mpr hd
      rw [splitLoop_fuel hd n m _ (by simp only [List.length_drop]; omega)
        (by simp only [List.length_drop]; omega)]

theorem split_none {s : List α} (h : find d s = none) : split d s = ([], s) := by
  unfold split
  cases hs : s.length with
  | zero => rfl
  | succ n => simp only [splitLoop, h]

theorem split_some {s : List α} {pos : Nat} (hd : d ≠ []) (h : find d s = some pos) :
    split d s =
      (if 0 < pos then s.take pos :: (split d (s.drop (pos + d.length))).1
        else (split d (s.drop (pos + d.length))).1, (split d (s.drop (pos + d.length))).2) := by
  have hle := find_some_le hd h
  have hpos : 0 < d.length := List.length_pos_iff.mpr hd
  obtain ⟨n, hn⟩ : ∃ n, s.length = n + 1 := ⟨s.length - 1, by omega⟩
  have hfuel : splitLoop d n (s.drop (pos + d.length)) = split d (s.drop (pos + d.length)) :=
    splitLoop_fuel hd _ _ _ (by simp only [List.length_drop]; omega) (Nat.le_refl _)
  conv => lhs; unfold split
  rw [hn]
  simp only [splitLoop, h, hfuel]

/-- The rest contains no delimiter. -/
theorem split_rest_free (hd : d ≠ []) (s : List α) : Free d (split d s).2 := by
  induction hlen : s.length using Nat.strong_induction_on generalizing s with
  | _ n ih =>
    cases h : find d s with
    | none => rw [split_none h]; exact (find_eq_none_iff hd).mp h
    | some pos =>
      have hle := find_some_le hd h
      have : 0 < d.length := List.length_pos_iff.mpr hd
      rw [split_some hd h]
      exact ih _ (by simp only [List.length_drop]; omega) _ rfl

/-- Every part is a nonempty stretch of the list. -/
theorem split_part (hd : d ≠ []) {s p : List α} (hp : p ∈ (split d s).1) : p ≠ [] ∧ p <:+: s := by
  induction hlen : s.length using Nat.strong_induction_on generalizing s with
  | _ n ih =>
    cases h : find d s with
    | none => rw [split_none h] at hp; simp at hp
    | some pos =>
      have hle := find_some_le hd h
      have hdl : 0 < d.length := List.length_pos_iff.mpr hd
      have hrec : p ∈ (split d (s.drop (pos + d.length))).1 → p ≠ [] ∧ p <:+: s := fun hm =>
        have hih := ih _ (by simp only [List.length_drop]; omega) hm rfl
        ⟨hih.1, hih.2.trans (List.drop_suffix _ _).isInfix⟩
      rw [split_some hd h] at hp
      by_cases h0 : 0 < pos
      · simp only [if_pos h0, List.mem_cons] at hp
        rcases hp with rfl | hp
        · refine ⟨fun he => ?_, (List.take_prefix _ _).isInfix⟩
          have := congrArg List.length he
          simp only [List.length_take, List.length_nil] at this
          omega
        · exact hrec hp
      · simp only [if_neg h0] at hp
        exact hrec hp

theorem split_rest_suffix (hd : d ≠ []) (s : List α) : (split d s).2 <:+ s := by
  induction hlen : s.length using Nat.strong_induction_on generalizing s with
  | _ n ih =>
    cases h : find d s with
    | none => rw [split_none h]
    | some pos =>
      have hle := find_some_le hd h
      have : 0 < d.length := List.length_pos_iff.mpr hd
      rw [split_some hd h]
      exact (ih _ (by simp only [List.length_drop]; omega) _ rfl).trans (List.drop_suffix _ _)

/-! ## Chunks -/

/-- **Cutting a list in two**: the loop on the whole is the loop on the first part, and then on
its rest followed by the second. -/
theorem split_append (hd : d ≠ []) (u v : List α) :
    split d (u ++ v) =
      ((split d u).1 ++ (split d ((split d u).2 ++ v)).1, (split d ((split d u).2 ++ v)).2) := by
  induction hlen : u.length using Nat.strong_induction_on generalizing u with
  | _ n ih =>
    cases h : find d u with
    | none => rw [split_none h]; simp
    | some pos =>
      have hle := find_some_le hd h
      have : 0 < d.length := List.length_pos_iff.mpr hd
      rw [split_some hd h, split_some hd (find_append hd h),
        List.drop_append_of_le_length hle, List.take_append_of_le_length (by omega),
        ih _ (by simp only [List.length_drop]; omega) _ rfl]
      split <;> rfl

/-- Chunks arrive one by one; the rest of the previous cut is put before each. -/
def feed (d : List α) : List α → List (List α) → List (List α) × List α
  | rest, [] => ([], rest)
  | rest, c :: cs =>
    let r := split d (rest ++ c)
    let r' := feed d r.2 cs
    (r.1 ++ r'.1, r'.2)

theorem feed_cons (rest c : List α) (cs : List (List α)) : feed d rest (c :: cs) =
    ((split d (rest ++ c)).1 ++ (feed d (split d (rest ++ c)).2 cs).1,
      (feed d (split d (rest ++ c)).2 cs).2) :=
  rfl

/-- **However the stream is cut into chunks, the loop gives the parts of the whole.** -/
theorem feed_eq_split (hd : d ≠ []) {rest : List α} (hrest : Free d rest)
    (chunks : List (List α)) : feed d rest chunks = split d (rest ++ chunks.flatten) := by
  induction chunks generalizing rest with
  | nil =>
    rw [List.flatten_nil, List.append_nil, split_none ((find_eq_none_iff hd).mpr hrest)]
    rfl
  | cons c cs ih =>
    rw [feed_cons, ih (split_rest_free hd _), List.flatten_cons, ← List.append_assoc,
      split_append hd (rest ++ c) cs.flatten]

/-! ## Pieces -/

/-- With an unbordered delimiter, the pieces are the lists without it. -/
theorem piece_of_free (hd : d ≠ []) (hu : Unbordered d) {p : List α} (hp : Free d p) :
    Piece d p := by
  refine (find_some_iff hd).mpr ⟨by simp, fun j hj hpre => ?_⟩
  rw [List.drop_append_of_le_length (by omega)] at hpre
  by_cases hk : p.length - j < d.length
  · -- the occurrence would overlap the final one
    refine hu (p.length - j) (by omega) hk ?_
    obtain ⟨t, ht⟩ := hpre
    have hsplit : d = p.drop j ++ d.drop (p.length - j) := by
      have htake := congrArg (List.take (p.length - j)) ht
      rw [List.take_append_of_le_length (by omega), List.take_append_of_le_length (by simp),
        List.take_of_length_le (by simp : (p.drop j).length ≤ p.length - j)] at htake
      conv => lhs; rw [← List.take_append_drop (p.length - j) d, htake]
    have hrest := ht
    conv at hrest => lhs; rw [hsplit]
    rw [List.append_assoc, List.append_cancel_left_eq] at hrest
    exact ⟨t, hrest⟩
  · -- the occurrence would lie in `p`
    refine hp (List.IsInfix.trans ?_ (List.drop_suffix j p).isInfix)
    exact (List.prefix_of_prefix_length_le hpre (List.prefix_append _ _)
      (by simp only [List.length_drop]; omega)).isInfix

theorem split_piece_append (hd : d ≠ []) {p : List α} (hp : Piece d p) (s : List α) :
    split d (p ++ d ++ s) =
      (if p = [] then (split d s).1 else p :: (split d s).1, (split d s).2) := by
  rw [split_some hd (find_append hd hp)]
  have hdrop : (p ++ d ++ s).drop (p.length + d.length) = s := by
    rw [← List.length_append, List.drop_left]
  have htake : (p ++ d ++ s).take p.length = p := by
    rw [List.append_assoc, List.take_left]
  rw [hdrop, htake]
  cases p <;> simp

/-- **The loop inverts terminating pieces by the delimiter**, up to the empty ones. -/
theorem split_pieces (hd : d ≠ []) {ps : List (List α)} (hps : ∀ p ∈ ps, Piece d p)
    {tail : List α} (ht : Free d tail) :
    split d ((ps.map (· ++ d)).flatten ++ tail) = (ps.filter (· ≠ []), tail) := by
  induction ps with
  | nil => simpa using split_none ((find_eq_none_iff hd).mpr ht)
  | cons p ps ih =>
    rw [List.map_cons, List.flatten_cons, List.append_assoc,
      split_piece_append hd (hps p (by simp)), ih fun q hq => hps q (by simp [hq])]
    by_cases hp : p = [] <;> simp [hp]

/-- Every list is a sequence of pieces, each with its delimiter, and a tail without one. -/
theorem exists_pieces (hd : d ≠ []) (s : List α) :
    ∃ (ps : List (List α)) (tail : List α), (∀ p ∈ ps, Piece d p ∧ Free d p) ∧ Free d tail ∧
      s = (ps.map (· ++ d)).flatten ++ tail := by
  induction hlen : s.length using Nat.strong_induction_on generalizing s with
  | _ n ih =>
    cases h : find d s with
    | none => exact ⟨[], s, by simp, (find_eq_none_iff hd).mp h, by simp⟩
    | some pos =>
      have hle := find_some_le hd h
      have hdl : 0 < d.length := List.length_pos_iff.mpr hd
      obtain ⟨ps, tail, hps, ht, heq⟩ :=
        ih _ (by simp only [List.length_drop]; omega) (s.drop (pos + d.length)) rfl
      have hmin := ((find_some_iff hd).mp h).2
      have hlen : (s.take pos).length = pos := by simp; omega
      have hpiece : find d (s.take pos ++ d) = some pos := by
        refine (find_some_iff hd).mpr ⟨by rw [List.drop_left' hlen], fun j hj hpre => hmin j hj ?_⟩
        rw [find_some_eq hd h, ← List.append_assoc, List.drop_append_of_le_length (by simp; omega)]
        exact hpre.trans (List.prefix_append _ _)
      have hfree : Free d (s.take pos) := by
        refine (find_eq_none_iff hd).mp ?_
        cases hf : find d (s.take pos) with
        | none => rfl
        | some i =>
          have hi := find_append (t := s.drop pos) hd hf
          rw [List.take_append_drop, h] at hi
          have hb := find_some_le hd hf
          cases hi
          omega
      refine ⟨s.take pos :: ps, tail, ?_, ht, ?_⟩
      · intro p hp
        rcases List.mem_cons.mp hp with rfl | hp
        · exact ⟨by rw [Piece, hlen, hpiece], hfree⟩
        · exact hps p hp
      · rw [List.map_cons, List.flatten_cons, List.append_assoc, ← heq, List.append_assoc]
        exact find_some_eq hd h

theorem split_part_free (hd : d ≠ []) {s p : List α} (hp : p ∈ (split d s).1) : Free d p := by
  obtain ⟨ps, tail, hps, ht, rfl⟩ := exists_pieces hd s
  rw [split_pieces hd (fun p h => (hps p h).1) ht] at hp
  exact (hps p (List.mem_of_mem_filter hp)).2

omit [DecidableEq α] in
theorem length_pieces (ps : List (List α)) :
    (d.length + 1) * (ps.filter (· ≠ [])).length ≤ ((ps.map (· ++ d)).flatten).length := by
  induction ps with
  | nil => exact Nat.le_refl 0
  | cons p ps ih =>
    rw [List.map_cons, List.flatten_cons, List.length_append, List.length_append]
    by_cases hp : p = []
    · rw [List.filter_cons_of_neg (by simp [hp])]
      omega
    · have hpos := List.length_pos_iff.mpr hp
      rw [List.filter_cons_of_pos (by simp [hp]), List.length_cons, Nat.mul_succ]
      omega

/-- **How many parts**: behind what contains no delimiter, every part but the first takes one element and a
delimiter of its own, and the first at least the end of one. -/
theorem length_split_le (hd : d ≠ []) {rest : List α} (hrest : Free d rest) (chunk : List α) :
    (d.length + 1) * (split d (rest ++ chunk)).1.length ≤ chunk.length + d.length := by
  obtain ⟨ps, tail, hps, ht, heq⟩ := exists_pieces hd (rest ++ chunk)
  rw [heq, split_pieces hd (fun p h => (hps p h).1) ht]
  cases ps with
  | nil => simp
  | cons p ps =>
    have hlen := congrArg List.length heq
    simp only [List.map_cons, List.flatten_cons, List.length_append] at hlen
    -- the first delimiter does not end in `rest`
    have hfirst : rest.length < p.length + d.length := by
      by_contra hle
      have hpre : p ++ d <+: rest := by
        refine List.prefix_of_prefix_length_le ?_ (List.prefix_append rest chunk) ?_
        · rw [heq, List.map_cons, List.flatten_cons, List.append_assoc]
          exact List.prefix_append _ _
        · rw [List.length_append]
          omega
      exact hrest ((List.suffix_append p d).isInfix.trans hpre.isInfix)
    have hothers := length_pieces (d := d) ps
    have hcount : ((p :: ps).filter (· ≠ [])).length ≤ (ps.filter (· ≠ [])).length + 1 := by
      rw [List.filter_cons]
      split
      · exact Nat.le_refl _
      · exact Nat.le_succ _
    calc (d.length + 1) * ((p :: ps).filter (· ≠ [])).length
        ≤ (d.length + 1) * ((ps.filter (· ≠ [])).length + 1) := Nat.mul_le_mul_left _ hcount
      _ = (d.length + 1) * (ps.filter (· ≠ [])).length + (d.length + 1) := Nat.mul_succ _ _
      _ ≤ chunk.length + d.length := by omega

/-! ## One cut -/

/-- What stands in front of the first `d`, and what stands behind it. -/
def cut (d s : List α) : Option (List α × List α) :=
  (find d s).map fun pos => (s.take pos, s.drop (pos + d.length))

/-- A piece is what stands in front of its delimiter. -/
theorem cut_piece (hd : d ≠ []) {p : List α} (hp : Piece d p) (s : List α) : cut d (p ++ (d ++ s)) = some (p, s) := by
  have hfind : find d (p ++ (d ++ s)) = some p.length := by
    rw [← List.append_assoc]
    exact find_append hd hp
  unfold cut
  rw [hfind, Option.map_some, List.take_left, ← List.length_append, ← List.append_assoc, List.drop_left]

theorem cut_some {s p t : List α} (hd : d ≠ []) (h : cut d s = some (p, t)) : s = p ++ (d ++ t) ∧ Free d p := by
  obtain ⟨pos, hpos, heq⟩ := Option.map_eq_some_iff.mp h
  obtain ⟨rfl, rfl⟩ := Prod.mk.inj heq
  refine ⟨find_some_eq hd hpos, (find_eq_none_iff hd).mp ?_⟩
  cases hf : find d (s.take pos) with
  | none => rfl
  | some i =>
    have hlonger := find_append (t := s.drop pos) hd hf
    rw [List.take_append_drop, hpos] at hlonger
    cases hlonger
    have hle := find_some_le hd hf
    have hlen : 0 < d.length := List.length_pos_iff.mpr hd
    rw [List.length_take] at hle
    omega

theorem cut_eq_none_iff {s : List α} (hd : d ≠ []) : cut d s = none ↔ Free d s := by
  unfold cut
  rw [Option.map_eq_none_iff, find_eq_none_iff hd]

/-- A piece is found in front of its delimiter in as much of a list as contains both. -/
theorem cut_take (hd : d ≠ []) {p : List α} (hp : Piece d p) (s : List α) (n : Nat) :
    cut d ((p ++ (d ++ s)).take n) =
      if p.length + d.length ≤ n then some (p, s.take (n - (p.length + d.length))) else none := by
  split
  · rename_i hle
    have htake : (p ++ (d ++ s)).take n = p ++ (d ++ s.take (n - (p.length + d.length))) := by
      rw [List.take_append, List.take_of_length_le (by omega), List.take_append, List.take_of_length_le (by omega)]
      congr 3
      omega
    rw [htake, cut_piece hd hp]
  · rename_i hlt
    have htake : (p ++ (d ++ s)).take n = (p ++ d).take n := by
      rw [← List.append_assoc, List.take_append_of_le_length (by rw [List.length_append]; omega)]
    rw [htake]
    unfold cut
    cases hf : find d ((p ++ d).take n) with
    | none => rfl
    | some i =>
      -- it would be the occurrence at the end
      have hlonger := find_append (t := (p ++ d).drop n) hd hf
      rw [List.take_append_drop, hp] at hlonger
      cases hlonger
      have hle := find_some_le hd hf
      rw [List.length_take, List.length_append] at hle
      omega

omit [DecidableEq α] in
theorem free_pair_append {a b : α} {s : List α} : ∀ {w : List α}, a ∉ w → (Free [a, b] (w ++ s) ↔ Free [a, b] s)
  | [], _ => Iff.rfl
  | c :: w, h => by
    have hrest := free_pair_append (b := b) (s := s) fun hw => h (List.mem_cons_of_mem c hw)
    have hne : ¬ [a, b] <+: c :: (w ++ s) := fun hpre => h (by
      rw [(List.cons_prefix_cons.mp hpre).1]
      exact List.mem_cons_self ..)
    unfold Free at hrest ⊢
    rw [List.cons_append, List.infix_cons_iff, not_or, and_iff_right hne, hrest]

/-! ## One-element delimiters -/

omit [DecidableEq α] in
theorem free_singleton {a : α} {s : List α} : Free [a] s ↔ a ∉ s := by
  unfold Free
  rw [List.singleton_infix_iff]

omit [DecidableEq α] in
/-- What stands before the first delimiter, and what stands after it, are determined. -/
theorem append_cons_inj {a : α} : ∀ {u v : List α} {s t : List α}, a ∉ u → a ∉ v →
    u ++ a :: s = v ++ a :: t → u = v ∧ s = t
  | [], [], _, _, _, _, h => ⟨rfl, (List.cons.inj h).2⟩
  | [], b :: _, _, _, _, hv, h => absurd (List.cons.inj h).1 fun hb => hv (by simp [hb])
  | b :: _, [], _, _, hu, _, h => absurd (List.cons.inj h).1 fun hb => hu (by simp [hb])
  | b :: u, c :: v, s, t, hu, hv, h => by
    obtain ⟨hb, h⟩ := List.cons.inj h
    obtain ⟨huv, hst⟩ := append_cons_inj (fun hm => hu (by simp [hm])) (fun hm => hv (by simp [hm])) h
    exact ⟨by rw [hb, huv], hst⟩

theorem piece_singleton {a : α} {s : List α} (h : a ∉ s) : Piece [a] s :=
  piece_of_free (by simp) (fun k h0 h1 => by simp only [List.length_singleton] at h1; omega)
    (free_singleton.mpr h)

theorem cut_singleton {a : α} {p : List α} (h : a ∉ p) (s : List α) : cut [a] (p ++ a :: s) = some (p, s) :=
  cut_piece (by simp) (piece_singleton h) s

/-- The parts of `splitOn`: the one at the start, and one behind each delimiter. -/
theorem splitOn_parts {a : α} : ∀ s : List α, ∃ ps, s.splitOn a = s.takeWhile (· ≠ a) :: ps ∧
    ∀ p, p ∈ ps ↔ ∃ before after, s = before ++ a :: after ∧ p = after.takeWhile (· ≠ a)
  | [] => ⟨[], rfl, fun p => by simp⟩
  | b :: s => by
    obtain ⟨ps, hps, hmem⟩ := splitOn_parts (a := a) s
    rw [List.splitOn_cons_eq_if_modifyHead, hps]
    by_cases hb : b = a
    · subst hb
      refine ⟨s.takeWhile (· ≠ b) :: ps, by simp, fun p => ?_⟩
      rw [List.mem_cons, hmem]
      constructor
      · rintro (rfl | ⟨before, after, rfl, rfl⟩)
        · exact ⟨[], s, rfl, rfl⟩
        · exact ⟨b :: before, after, rfl, rfl⟩
      · rintro ⟨before, after, h, rfl⟩
        rcases List.append_eq_cons_iff.mp h.symm with ⟨-, hs⟩ | ⟨before', -, hs⟩
        · cases hs
          exact .inl rfl
        · exact .inr ⟨before', after, hs, rfl⟩
    · refine ⟨ps, by simp [hb], fun p => ?_⟩
      rw [hmem]
      constructor
      · rintro ⟨before, after, rfl, rfl⟩
        exact ⟨b :: before, after, rfl, rfl⟩
      · rintro ⟨before, after, h, rfl⟩
        rcases List.append_eq_cons_iff.mp h.symm with ⟨-, hs⟩ | ⟨before', -, hs⟩
        · exact absurd (List.cons.inj hs).1.symm hb
        · exact ⟨before', after, hs, rfl⟩

/-! ## Items with a separator between them -/

omit [DecidableEq α] in
theorem dropLast_flatten_append {a : α} : ∀ {ls : List (List α)}, ls ≠ [] →
    (ls.map (· ++ [a])).flatten.dropLast = [a].intercalate ls
  | [], h => absurd rfl h
  | [l], _ => by simp
  | l :: l' :: ls, _ => by
    have hrest := dropLast_flatten_append (a := a) (List.cons_ne_nil l' ls)
    have hne : ((l' :: ls).map (· ++ [a])).flatten ≠ [] := by simp
    rw [List.map_cons, List.flatten_cons, List.dropLast_append_of_ne_nil hne, hrest, List.intercalate_cons_cons]

omit [DecidableEq α] in
theorem length_intercalate {a : α} : ∀ {ls : List (List α)}, ls ≠ [] →
    ([a].intercalate ls).length + 1 = (ls.map fun l => l.length + 1).sum
  | [], h => absurd rfl h
  | [l], _ => by simp
  | l :: l' :: ls, _ => by
    have hrest := length_intercalate (a := a) (List.cons_ne_nil l' ls)
    rw [List.intercalate_cons_cons, List.map_cons, List.sum_cons, ← hrest]
    simp only [List.length_append, List.length_singleton]
    omega

/-- Items that are cut off somewhere are read back, in whatever order, exactly if none is lost. -/
theorem perm_splitOn_take {a : α} {ls : List (List α)} {n : Nat} (hls : ls ≠ []) (h : ∀ l ∈ ls, a ∉ l) :
    ((([a].intercalate ls).take n).splitOn a).Perm ls ↔ ([a].intercalate ls).length ≤ n := by
  constructor
  · intro hperm
    have hne : (([a].intercalate ls).take n).splitOn a ≠ [] := fun hnil => by
      rw [hnil] at hperm
      exact hls hperm.nil_eq.symm
    have hsum := (hperm.map fun l => l.length + 1).sum_eq
    rw [← length_intercalate (a := a) hne, ← length_intercalate (a := a) hls, List.intercalate_splitOn,
      List.length_take] at hsum
    omega
  · intro hle
    rw [List.take_of_length_le hle, List.splitOn_intercalate a h hls]

end Delimited
