import FtIrc.ChannelMessages
import FtIrc.Grammar
import FtIrc.ModeOptions

/-!
# A MODE line and its options one by one

A line with several options executes each of them with the same argument, `ar[3]`, and of a long line only the
first words are read.  `Decided` compares the options that decide the key, the limit, the flags and the operators
on such a line with those that decide them when every option is a line of its own, with its own argument.  A name
with a space or a colon is read only up to there, so that no line with options changes its channel.

Principal result: `sequence_iff`.  The line and the sequence come to the same exactly if it is `InOrder`.
-/

namespace FtIrc

open Std Outcome Server LastSet

variable {s : Server} {x p : Ptr} {ws : List Str} {k v w : Str} {ch : Ch} {who : Str → Ptr} {os : List (Str × Str)}
  {cfg : Config} {pass : Str} {lfd : Nat}

/-! ## The words of a line -/

/-- A word: what stands between two spaces, or behind a colon. -/
def IsWord (w : Str) : Prop := SPACE ∉ w ∨ w.head? = some COLON

instance (w : Str) : Decidable (IsWord w) := by
  unfold IsWord
  infer_instance

/-- An option as it is written: exactly `+k`, `+l`, `+o` and `-o` have an argument. -/
structure ModeOption where
  opt : Str
  arg : Option Str
  takes : arg.isSome = true ↔ opt ∈ modeOptsArg
  isWord : ∀ w ∈ opt :: arg.toList, IsWord w

def ModeOption.words (o : ModeOption) : List Str := o.opt :: o.arg.toList

/-- `MODE` with the name of a channel and further words. -/
def modeCmd (k : Str) (ws : List Str) : Str := str "MODE" ++ renderParams (k :: ws) none

/-- What is read of the words behind the name: `MODE` and the name are two of the `MAX_ARGS` arguments. -/
def wordsRead (ws : List Str) : List Str := (rawArgs (renderParams ws none)).take (MAX_ARGS - 2)

example : wordsRead (List.replicate 15 (str "+t") ++ [str "-t"]) = List.replicate 15 (str "+t") := by decide

theorem splitCmdToArgs_modeCmd (hk : k ≠ [] ∧ SPACE ∉ k ∧ COLON ∉ k) (ws : List Str) :
    splitCmdToArgs (modeCmd k ws) = str "MODE" :: k :: wordsRead ws := by
  have hraw : rawArgs (modeCmd k ws) = str "MODE" :: k :: rawArgs (renderParams ws none) := by
    unfold modeCmd
    rw [rawArgs_word_params (by decide) (by decide) (by decide), renderParams, rawArgs_space,
      rawArgs_word_params hk.1 hk.2.1 hk.2.2]
  rw [splitCmdToArgs_eq, hraw]
  rfl

/-- A word is read as one word, or as two where it has a colon. -/
theorem length_rawArgs_word (hw : IsWord w) : (rawArgs w).length ≤ 2 := by
  have hspace : SPACE ∉ w.takeWhile (· ≠ COLON) := by
    rcases hw with hw | hw
    · exact fun h => hw ((List.takeWhile_sublist _).subset h)
    · obtain ⟨t, rfl⟩ : ∃ t, w = COLON :: t := by
        cases w with
        | nil => cases hw
        | cons b t => exact ⟨t, by rw [Option.some.inj hw]⟩
      simp
  have hone : (splitAll [SPACE] (w.takeWhile (· ≠ COLON))).length ≤ 1 := by
    by_cases hnil : w.takeWhile (· ≠ COLON) = []
    · rw [hnil]
      exact Nat.zero_le 1
    · rw [splitAll_word hnil hspace]
      rfl
  have hlast := length_afterColon w
  unfold rawArgs
  rw [List.length_append]
  omega

/-- The arguments of some options are the second word. -/
def SecondOnly (ws : List Str) : Prop := ∀ o ∈ optionsRead ws, ∀ a, o.2 = some a → ws[1]? = some a

theorem secondOnly_of_length : ∀ {ws : List Str}, ws.length ≤ 2 → SecondOnly ws
  | [], _ => fun o ho => absurd ho List.not_mem_nil
  | [w], _ => fun o ho a ha => by
    rw [List.mem_singleton.mp ho] at ha
    cases ha
  | [w, b], _ => fun o ho a ha => by
    rw [optionsRead] at ho
    split at ho
    · rw [List.mem_singleton.mp ho] at ha
      exact ha
    · rcases List.mem_cons.mp ho with rfl | ho
      · cases ha
      · rw [List.mem_singleton.mp ho] at ha
        cases ha
  | _ :: _ :: _ :: _, h => by simp at h

theorem secondOnly_cons (hw : w ∈ modeOptsArg) (h : ws.length ≤ 2) : SecondOnly (w :: ws) := by
  match ws with
  | [] => exact secondOnly_of_length (by simp)
  | [b] => exact secondOnly_of_length (by simp)
  | [b, e] =>
    intro o ho a ha
    rw [optionsRead, if_pos hw] at ho
    rcases List.mem_cons.mp ho with rfl | ho
    · exact ha
    · rw [List.mem_singleton.mp ho] at ha
      cases ha
  | _ :: _ :: _ :: _ => simp at h

/-- **One option on a line**: its argument, as it is read, is the second word. -/
theorem secondOnly_words (o : ModeOption) : SecondOnly (wordsRead o.words) := by
  have hsecond : SecondOnly (rawArgs (renderParams o.words none)) ∧
      (rawArgs (renderParams o.words none)).length ≤ 3 := by
    unfold ModeOption.words
    have hwords := o.isWord
    cases ha : o.arg with
    | none =>
      have hlen := length_rawArgs_word (hwords o.opt (List.mem_cons_self ..))
      have hone : renderParams (o.opt :: (none : Option Str).toList) none = SPACE :: o.opt := by
        show SPACE :: (o.opt ++ []) = _
        rw [List.append_nil]
      rw [hone, rawArgs_space]
      exact ⟨secondOnly_of_length hlen, by omega⟩
    | some a =>
      have htakes : o.opt ∈ modeOptsArg := o.takes.mp (by rw [ha]; rfl)
      have hlen := length_rawArgs_word (hwords a (by rw [ha]; simp))
      have hopt : ∀ w ∈ modeOptsArg, w ≠ [] ∧ SPACE ∉ w ∧ COLON ∉ w := by decide
      obtain ⟨hne, hspace, hcolon⟩ := hopt _ htakes
      have htwo : rawArgs (renderParams (o.opt :: (some a).toList) none) = o.opt :: rawArgs a := by
        show rawArgs (SPACE :: (o.opt ++ (SPACE :: (a ++ [])))) = _
        rw [rawArgs_space, List.append_nil, rawArgs_word_space hne hspace hcolon]
      rw [htwo]
      exact ⟨secondOnly_cons htakes hlen, by rw [List.length_cons]; omega⟩
  have htake : wordsRead o.words = rawArgs (renderParams o.words none) :=
    List.take_of_length_le (hsecond.2.trans (by decide))
  rw [htake]
  exact hsecond.1

/-! ## The option that decides -/

/-- The option that decides the key: the last `-k`, or the `+k` behind it that finds no key. -/
def keyDecider : Bool → List (Str × Str) → Option (Str × Str)
  | _, [] => none
  | free, o :: os =>
    if o.1 = str "-k" then (keyDecider true os).or (some o)
    else if o.1 = str "+k" ∧ o.2 ≠ [] ∧ free = true then (keyDecider false os).or (some o)
    else keyDecider free os

/-- Does the option decide the limit? -/
def setsLimit (o : Str × Str) : Bool := o.1 = str "-l" || (o.1 = str "+l" && (limitOf o.2).isSome)

def setsFlag (l : Str) (o : Str × Str) : Bool := o.1 = str "+" ++ l || o.1 = str "-" ++ l

/-- Does the option name `p` among those it makes operators, or takes that from? -/
def setsOp (who : Str → Ptr) (p : Ptr) (o : Str × Str) : Bool :=
  (o.1 = str "+o" || o.1 = str "-o") && (splitArgToSubargs o.2).any fun w => who w = p

section Settings

variable (line seq : List (Str × Str))

/-- If a `+k` decides, it has the same argument. -/
def SameKey (key : Str) : Prop := Concur (fun e d => e.1 = d.1 ∧ (e.1 = str "+k" → e.2 = d.2))
  (fun o => key = if o.1 = str "-k" then [] else o.2) (keyDecider (key = []) line) (keyDecider (key = []) seq)

/-- If a `+l` decides, its argument is the same limit. -/
def SameLimit (limit : Nat) : Prop := Concur (fun e d => e.1 = d.1 ∧ (e.1 = str "+l" → limitOf e.2 = limitOf d.2))
  (fun o => if o.1 = str "-l" then limit = UINT_MAX else limitOf o.2 = some limit)
  (lastThat setsLimit line) (lastThat setsLimit seq)

def SameFlag (l : Str) (flag : Bool) : Prop := Concur (fun e d => e.1 = d.1)
  (fun o => flag = decide (o.1 = str "+" ++ l)) (lastThat (setsFlag l) line) (lastThat (setsFlag l) seq)

def SameOp (who : Str → Ptr) (p : Ptr) (op : Bool) : Prop := Concur (fun e d => e.1 = d.1)
  (fun o => op = decide (o.1 = str "+o")) (lastThat (setsOp who p) line) (lastThat (setsOp who p) seq)

/-- The options of a line decide the same on `ch` as those of a sequence. -/
structure Decided (who : Str → Ptr) (ch : Ch) : Prop where
  key : SameKey line seq ch.pass
  limit : SameLimit line seq ch.limit
  optI : SameFlag line seq (str "i") ch.optI
  optT : SameFlag line seq (str "t") ch.optT
  operators : ∀ p ∈ ch.clis, SameOp line seq who p (decide (p ∈ ch.adms))

end Settings

/-! ## What the options of a list leave -/

/-- The items of a list of nicks set nothing but operators. -/
theorem lastSet_executed {β : Type} {f : Str × Str → Option β}
    (hf : ∀ o : Str × Str, o.1 = str "+o" ∨ o.1 = str "-o" → f o = none) :
    ∀ (os : List (Str × Str)) (b : β), lastSet f (executed os) b = lastSet f os b
  | [], _ => rfl
  | o :: os, b => by
    have hone : lastSet f (optPairs o.1 o.2) b = (f o).getD b := by
      unfold optPairs
      split
      · rename_i ho
        rw [hf o ho.1, lastSet_of_forall]
        · rfl
        · intro e he v hv
          obtain ⟨w, -, rfl⟩ := List.mem_map.mp he
          rw [hf (o.1, w) ho.1] at hv
          cases hv
      · rw [lastSet_cons, lastSet_nil]
    rw [executed_cons, lastSet_append, hone, lastSet_cons, lastSet_executed hf os]

theorem foldl_keyAfter_executed : ∀ (os : List (Str × Str)) (key : Str),
    (executed os).foldl keyAfter key = os.foldl keyAfter key
  | [], _ => rfl
  | o :: os, key => by
    have hone : (optPairs o.1 o.2).foldl keyAfter key = keyAfter key o := by
      unfold optPairs
      split
      · rename_i ho
        have hskip : ∀ key u, keyAfter key (o.1, u) = key := by
          intro key u
          unfold keyAfter
          rcases ho.1 with h | h <;> rw [h] <;> simp +decide
        rw [show keyAfter key o = key from hskip key o.2]
        induction splitArgToSubargs o.2 with
        | nil => rfl
        | cons u us ih => rw [List.map_cons, List.foldl_cons, hskip, ih]
      · rfl
    rw [executed_cons, List.foldl_append, hone, foldl_keyAfter_executed os, List.foldl_cons]

/-- What an option makes of the member `p`, with all the nicks of its list. -/
def opsSet (who : Str → Ptr) (p : Ptr) (o : Str × Str) : Option Bool :=
  if setsOp who p o then some (decide (o.1 = str "+o")) else none

theorem lastSet_ops (hp : p ∈ ch.clis) (hwho : who [] ≠ p) : ∀ (os : List (Str × Str)) (b : Bool),
    lastSet (opSet who ch.clis p) (executed os) b = lastSet (opsSet who p) os b
  | [], _ => rfl
  | o :: os, b => by
    have hitem : ∀ w, opSet who ch.clis p (o.1, w) =
        if who w = p ∧ (o.1 = str "+o" ∨ o.1 = str "-o") then some (decide (o.1 = str "+o")) else none := by
      intro w
      unfold opSet
      by_cases hw : who w = p
      · by_cases hplus : o.1 = str "+o"
        · simp [hw, hp, hplus]
        · by_cases hminus : o.1 = str "-o"
          · simp +decide [hw, hp, hminus]
          · simp [hw, hp, hplus, hminus]
      · simp [hw]
    -- all items of a list set the same
    have hitems : ∀ (ws : List Str) (b : Bool), (o.1 = str "+o" ∨ o.1 = str "-o") →
        lastSet (opSet who ch.clis p) (ws.map fun w => (o.1, w)) b =
          if (ws.any fun w => who w = p) = true then decide (o.1 = str "+o") else b := by
      intro ws
      induction ws with
      | nil => exact fun b _ => rfl
      | cons w ws ih =>
        intro b ho
        rw [List.map_cons, lastSet_cons, ih _ ho, hitem, List.any_cons]
        by_cases hw : who w = p
        · simp [hw, ho]
        · simp [hw]
    have hone : lastSet (opSet who ch.clis p) (optPairs o.1 o.2) b = (opsSet who p o).getD b := by
      unfold optPairs opsSet setsOp
      by_cases ho : o.1 = str "+o" ∨ o.1 = str "-o"
      · by_cases hnil : o.2 = []
        · rw [if_neg fun h => h.2 hnil, lastSet_cons, lastSet_nil, hnil, hitem, if_neg fun h => hwho h.1]
          simp [splitArgToSubargs]
        · rw [if_pos ⟨ho, hnil⟩, hitems _ _ ho]
          by_cases hany : ((splitArgToSubargs o.2).any fun w => who w = p) = true
          · simp [hany, ho]
          · simp [hany]
      · rw [if_neg fun h => ho h.1, lastSet_cons, lastSet_nil, hitem, if_neg fun h => ho h.2]
        rw [not_or] at ho
        simp [ho.1, ho.2]
    rw [executed_cons, lastSet_append, hone, lastSet_cons, lastSet_ops hp hwho os]

/-- The key that an option leaves. -/
def keySet (o : Str × Str) : Option Str :=
  if o.1 = str "-k" then some [] else if o.1 = str "+k" ∧ o.2 ≠ [] then some o.2 else none

theorem keySet_of_decider : ∀ (os : List (Str × Str)) (free : Bool) (o : Str × Str), keyDecider free os = some o →
    (keySet o).isSome = true
  | [], _, _, h => by cases h
  | o' :: os, free, o, h => by
    have hrest := fun free => keySet_of_decider os free o
    unfold keyDecider at h
    split at h
    · rename_i ho
      rcases Option.or_eq_some_iff.mp h with h | ⟨-, h⟩
      · exact hrest true h
      · cases h
        simp [keySet, ho]
    split at h
    · rename_i hno ho
      rcases Option.or_eq_some_iff.mp h with h | ⟨-, h⟩
      · exact hrest false h
      · cases h
        unfold keySet
        rw [if_neg hno, if_pos ⟨ho.1, ho.2.1⟩]
        rfl
    · exact hrest free h

/-- What decides the key is what stands at the end. -/
theorem foldl_keyAfter_eq : ∀ (os : List (Str × Str)) (key : Str),
    os.foldl keyAfter key = ((keyDecider (key = []) os).bind keySet).getD key
  | [], _ => rfl
  | o :: os, key => by
    have hor : ∀ (e : Option (Str × Str)) (key' : Str), (∀ o' ∈ e, (keySet o').isSome = true) →
        keySet o = some key' → ((e.or (some o)).bind keySet).getD key = (e.bind keySet).getD key' := by
      intro e key' he ho
      cases e with
      | none => simp [ho]
      | some o' =>
        obtain ⟨b, hb⟩ := Option.isSome_iff_exists.mp (he o' rfl)
        simp [hb]
    rw [List.foldl_cons, foldl_keyAfter_eq os, keyDecider]
    by_cases hminus : o.1 = str "-k"
    · have hplus : ¬ (o.1 = str "+k" ∧ o.2 ≠ [] ∧ key = []) := fun h => absurd (hminus.symm.trans h.1) (by decide)
      rw [if_pos hminus, hor _ [] (fun o' => keySet_of_decider os true o') (if_pos hminus)]
      unfold keyAfter
      rw [if_neg hplus, if_pos hminus]
      rfl
    · rw [if_neg hminus]
      by_cases hplus : o.1 = str "+k" ∧ o.2 ≠ [] ∧ key = []
      · have hset : keySet o = some o.2 := by
          unfold keySet
          rw [if_neg hminus, if_pos ⟨hplus.1, hplus.2.1⟩]
        rw [if_pos ⟨hplus.1, hplus.2.1, decide_eq_true hplus.2.2⟩,
          hor _ o.2 (fun o' => keySet_of_decider os false o') hset]
        unfold keyAfter
        rw [if_pos hplus, decide_eq_false hplus.2.1]
      · rw [if_neg fun h => hplus ⟨h.1, h.2.1, of_decide_eq_true h.2.2⟩]
        unfold keyAfter
        rw [if_neg hplus, if_neg hminus]

/-- A limit fits in an `int`. -/
theorem limitOf_lt {n : Nat} (h : limitOf v = some n) : n < UINT_MAX := by
  unfold limitOf at h
  split at h
  · rename_i hv
    cases h
    have hpos : 0 ≤ atoi v := by
      have hgood := hv.2
      unfold badLimit at hgood
      omega
    unfold atoi at hpos
    have hlt : toInt32 (strtol v) < 2147483648 := by
      simp only [toInt32]
      split <;> omega
    unfold toUInt32 UINT_MAX
    omega
  · cases h

theorem sign_iff {l : Str} {o o' : Str × Str} (ho : o.1 = str "+" ++ l ∨ o.1 = str "-" ++ l)
    (ho' : o'.1 = str "+" ++ l ∨ o'.1 = str "-" ++ l) : (o.1 = str "+" ++ l ↔ o'.1 = str "+" ++ l) ↔ o.1 = o'.1 := by
  have hne : str "-" ++ l ≠ str "+" ++ l := fun h => absurd (List.append_cancel_right h) (by decide)
  constructor
  · intro h
    rcases ho with ho | ho <;> rcases ho' with ho' | ho'
    · rw [ho, ho']
    · exact absurd (ho'.symm.trans (h.mp ho)) hne
    · exact absurd (ho.symm.trans (h.mpr ho')) hne
    · rw [ho, ho']
  · intro h
    rw [h]

/-- A flag is the same. -/
theorem flag_iff (l : Str) (line seq : List (Str × Str)) (b : Bool) :
    lastSet (flagSet l) line b = lastSet (flagSet l) seq b ↔
      SameFlag line seq l b := by
  have hset : ∀ o, setsFlag l o = (flagSet l o).isSome := by
    intro o
    unfold setsFlag flagSet
    by_cases hon : o.1 = str "+" ++ l
    · simp [hon]
    · rw [if_neg hon]
      by_cases hoff : o.1 = str "-" ++ l
      · rw [if_pos hoff]
        simp [hoff]
      · rw [if_neg hoff]
        simp [hon, hoff]
  have hval : ∀ o, (flagSet l o).isSome → (o.1 = str "+" ++ l ∨ o.1 = str "-" ++ l) ∧
      flagSet l o = some (decide (o.1 = str "+" ++ l)) := by
    intro o ho
    unfold flagSet at ho ⊢
    by_cases hon : o.1 = str "+" ++ l
    · exact ⟨.inl hon, by simp [hon]⟩
    · rw [if_neg hon] at ho ⊢
      by_cases hoff : o.1 = str "-" ++ l
      · exact ⟨.inr hoff, by rw [if_pos hoff, decide_eq_false hon]⟩
      · rw [if_neg hoff] at ho
        cases ho
  refine lastSet_eq_iff hset (fun o o' ho ho' => ?_) fun o ho => ?_
  · rw [(hval o ho).2, (hval o' ho').2, Option.some.injEq, decide_eq_decide]
    exact sign_iff (hval o ho).1 (hval o' ho').1
  · rw [(hval o ho).2, Option.some.injEq, eq_comm]

theorem lastLimit_iff (line seq : List (Str × Str)) (b : Nat) :
    lastSet limitSet line b = lastSet limitSet seq b ↔ SameLimit line seq b := by
  have hset : ∀ o, setsLimit o = (limitSet o).isSome := by
    intro o
    unfold setsLimit limitSet
    by_cases hminus : o.1 = str "-l"
    · simp [hminus]
    · by_cases hplus : o.1 = str "+l" <;> simp +decide [hminus, hplus]
  -- `-l`, or `+l` with a limit
  have hval : ∀ o, (limitSet o).isSome → (o.1 = str "-l" ∧ limitSet o = some UINT_MAX) ∨
      (o.1 = str "+l" ∧ o.1 ≠ str "-l" ∧ limitSet o = limitOf o.2 ∧ ∃ n, limitOf o.2 = some n ∧ n < UINT_MAX) := by
    intro o ho
    unfold limitSet at ho ⊢
    by_cases hminus : o.1 = str "-l"
    · exact .inl ⟨hminus, if_pos hminus⟩
    · rw [if_neg hminus] at ho ⊢
      by_cases hplus : o.1 = str "+l"
      · rw [if_pos hplus] at ho ⊢
        obtain ⟨n, hn⟩ := Option.isSome_iff_exists.mp ho
        exact .inr ⟨hplus, hminus, rfl, n, hn, limitOf_lt hn⟩
      · rw [if_neg hplus] at ho
        cases ho
  refine lastSet_eq_iff hset (fun o o' ho ho' => ?_) fun o ho => ?_
  · rcases hval o ho with ⟨h, hs⟩ | ⟨h, -, hs, n, hn, hlt⟩ <;>
      rcases hval o' ho' with ⟨h', hs'⟩ | ⟨h', -, hs', n', hn', hlt'⟩
    · simp +decide [h, h', hs, hs']
    · rw [h, h', hs, hs', hn', Option.some.injEq]
      exact iff_of_false (fun h => absurd (h ▸ hlt') (Nat.lt_irrefl _)) fun h => absurd h.1 (by decide)
    · rw [h, h', hs, hs', hn, Option.some.injEq]
      exact iff_of_false (fun h => absurd (h ▸ hlt) (Nat.lt_irrefl _)) fun h => absurd h.1 (by decide)
    · rw [h, h', hs, hs']
      simp
  · rcases hval o ho with ⟨h, hs⟩ | ⟨-, h, hs, -⟩
    · rw [if_pos h, hs, Option.some.injEq, eq_comm]
    · rw [if_neg h, hs]

theorem key_iff (line seq : List (Str × Str)) (key : Str) :
    line.foldl keyAfter key = seq.foldl keyAfter key ↔ SameKey line seq key := by
  -- `-k`, or `+k` with a key
  have hval : ∀ o, (keySet o).isSome → (o.1 = str "-k" ∧ keySet o = some []) ∨
      (o.1 = str "+k" ∧ o.1 ≠ str "-k" ∧ o.2 ≠ [] ∧ keySet o = some o.2) := by
    intro o ho
    unfold keySet at ho ⊢
    by_cases hminus : o.1 = str "-k"
    · exact .inl ⟨hminus, if_pos hminus⟩
    · rw [if_neg hminus] at ho ⊢
      by_cases hplus : o.1 = str "+k" ∧ o.2 ≠ []
      · exact .inr ⟨hplus.1, hminus, hplus.2, if_pos hplus⟩
      · rw [if_neg hplus] at ho
        cases ho
  rw [foldl_keyAfter_eq, foldl_keyAfter_eq]
  refine concur_iff (fun o ho => keySet_of_decider _ _ o ho) (fun o ho => keySet_of_decider _ _ o ho)
    (fun o o' ho ho' => ?_) fun o ho => ?_
  · rcases hval o ho with ⟨h, hs⟩ | ⟨h, -, hne, hs⟩ <;> rcases hval o' ho' with ⟨h', hs'⟩ | ⟨h', -, hne', hs'⟩
    · simp +decide [h, h', hs, hs']
    · rw [h, h', hs, hs', Option.some.injEq]
      exact iff_of_false (fun h => hne' h.symm) fun h => absurd h.1 (by decide)
    · rw [h, h', hs, hs', Option.some.injEq]
      exact iff_of_false hne fun h => absurd h.1 (by decide)
    · rw [h, h', hs, hs']
      simp
  · rcases hval o ho with ⟨h, hs⟩ | ⟨-, h, -, hs⟩
    · rw [if_pos h, hs, Option.some.injEq, eq_comm]
    · rw [if_neg h, hs, Option.some.injEq, eq_comm]

theorem ops_iff (line seq : List (Str × Str)) (b : Bool) :
    lastSet (opsSet who p) line b = lastSet (opsSet who p) seq b ↔ SameOp line seq who p b := by
  have hset : ∀ o, setsOp who p o = (opsSet who p o).isSome := by
    intro o
    unfold opsSet
    split <;> simp_all
  have hval : ∀ o, (opsSet who p o).isSome → (o.1 = str "+" ++ str "o" ∨ o.1 = str "-" ++ str "o") ∧
      opsSet who p o = some (decide (o.1 = str "+o")) := by
    intro o ho
    rw [← hset] at ho
    refine ⟨?_, if_pos ho⟩
    unfold setsOp at ho
    rw [Bool.and_eq_true, Bool.or_eq_true, decide_eq_true_iff, decide_eq_true_iff] at ho
    exact ho.1
  refine lastSet_eq_iff hset (fun o o' ho ho' => ?_) fun o ho => ?_
  · rw [(hval o ho).2, (hval o' ho').2, Option.some.injEq, decide_eq_decide]
    exact sign_iff (hval o ho).1 (hval o' ho').1
  · rw [(hval o ho).2, Option.some.injEq, eq_comm]

/-- The channel `k` has the same key, limit, flags and operators. -/
def SameModes (s t : Server) (k : Str) : Prop := ∃ ch ch' : Ch, s.chs[k]? = some ch ∧ t.chs[k]? = some ch' ∧
  ch.pass = ch'.pass ∧ ch.limit = ch'.limit ∧ ch.optI = ch'.optI ∧ ch.optT = ch'.optT ∧ ch.adms = ch'.adms

/-- **What two lists of options have made of a channel** is the same, by what decides it. -/
theorem configured_same_iff {line seq : List (Str × Str)} {ch₁ ch₂ : Ch} (h₁ : Configured who (executed line) ch ch₁)
    (h₂ : Configured who (executed seq) ch ch₂) (hwho : who [] ∉ ch.clis) :
    (ch₁.pass = ch₂.pass ∧ ch₁.limit = ch₂.limit ∧ ch₁.optI = ch₂.optI ∧ ch₁.optT = ch₂.optT ∧ ch₁.adms = ch₂.adms) ↔
      Decided line seq who ch := by
  have hkey : ch₁.pass = ch₂.pass ↔ SameKey line seq ch.pass := by
    rw [h₁.pass, h₂.pass, foldl_keyAfter_executed, foldl_keyAfter_executed]
    exact key_iff line seq ch.pass
  have hlimit : ch₁.limit = ch₂.limit ↔ SameLimit line seq ch.limit := by
    have hno : ∀ o : Str × Str, o.1 = str "+o" ∨ o.1 = str "-o" → limitSet o = none := by
      intro o ho
      unfold limitSet
      rcases ho with h | h <;> rw [h] <;> rfl
    rw [h₁.limit, h₂.limit, lastSet_executed hno, lastSet_executed hno]
    exact lastLimit_iff line seq ch.limit
  have hflag : ∀ l : Str, str "o" ≠ l → ∀ b,
      lastSet (flagSet l) (executed line) b = lastSet (flagSet l) (executed seq) b ↔ SameFlag line seq l b := by
    intro l hl b
    have hno : ∀ o : Str × Str, o.1 = str "+o" ∨ o.1 = str "-o" → flagSet l o = none := by
      intro o ho
      have hne : ∀ a a' : UInt8, [a] ++ str "o" ≠ [a'] ++ l := fun a a' h => hl (List.cons.inj h).2
      unfold flagSet
      rcases ho with h | h
      · rw [h]
        exact (if_neg (hne 43 43)).trans (if_neg (hne 43 45))
      · rw [h]
        exact (if_neg (hne 45 43)).trans (if_neg (hne 45 45))
    rw [lastSet_executed hno, lastSet_executed hno]
    exact flag_iff l line seq b
  have hops : ch₁.adms = ch₂.adms ↔ ∀ p ∈ ch.clis, SameOp line seq who p (decide (p ∈ ch.adms)) := by
    -- only members are operators, before and after
    have hout : ∀ p, p ∉ ch.clis → ∀ os,
        lastSet (opSet who ch.clis p) os (decide (p ∈ ch.adms)) = decide (p ∈ ch.adms) := by
      intro p hp os
      apply lastSet_of_forall
      intro e _ b hb
      unfold opSet at hb
      rw [if_neg fun h => hp h.2] at hb
      cases hb
    have hmember : ∀ p ∈ ch.clis, decide (p ∈ ch₁.adms) = decide (p ∈ ch₂.adms) ↔
        SameOp line seq who p (decide (p ∈ ch.adms)) := by
      intro p hp
      have hne : who [] ≠ p := fun h => hwho (h ▸ hp)
      rw [h₁.adms, h₂.adms, lastSet_ops hp hne, lastSet_ops hp hne, ops_iff]
    constructor
    · exact fun heq p hp => (hmember p hp).mp (by rw [heq])
    · intro hall
      refine ExtTreeSet.ext_mem fun p => ?_
      rw [← decide_eq_decide]
      by_cases hp : p ∈ ch.clis
      · exact (hmember p hp).mpr (hall p hp)
      · rw [h₁.adms, h₂.adms, hout p hp, hout p hp]
  rw [h₁.optI, h₂.optI, h₁.optT, h₂.optT, hkey, hlimit, hflag _ (by decide), hflag _ (by decide), hops]
  exact ⟨fun ⟨hk, hl, hi, ht, ho⟩ => ⟨hk, hl, hi, ht, ho⟩, fun ⟨hk, hl, hi, ht, ho⟩ => ⟨hk, hl, hi, ht, ho⟩⟩

/-! ## The options one after the other -/

/-- No member is without a nick. -/
theorem getCli_nil_not_mem (hI : Inv s) (hch : s.chs[k]? = some ch) : s.getCli [] ∉ ch.clis := by
  intro hm
  obtain ⟨c, hc, hreg⟩ := hI.member k ch hch _ hm
  have hne : s.getCli [] ≠ NULL := by
    rw [← (cliAt_mem hc).2]
    exact hI.addr_ne c (cliAt_mem hc).1
  obtain ⟨d, hd, hnick⟩ := getCli_ne_null hI hne
  rw [hc] at hd
  cases hd
  exact (Cli.registered_iff.mp hreg).2.1 (List.map_eq_nil_iff.mp hnick)

/-- The items of `-o`. -/
theorem mem_executed_minus {e : Str × Str} (he : e ∈ executed os) (hm : e.1 = str "-o") :
    ∃ o ∈ os, o.1 = str "-o" ∧ (e.2 = [] ∨ e.2 ∈ splitArgToSubargs o.2) := by
  obtain ⟨o, ho, he⟩ := List.mem_flatMap.mp he
  unfold optPairs at he
  split at he
  · obtain ⟨w, hw, rfl⟩ := List.mem_map.mp he
    exact ⟨o, ho, hm, .inr hw⟩
  · rename_i hno
    rw [List.mem_singleton.mp he] at hm ⊢
    exact ⟨o, ho, hm, .inl (not_not.mp fun hne => hno ⟨.inr hm, hne⟩)⟩

/-- Where the arguments are the second word, it does for each option what its own argument does. -/
theorem SecondOnly.withOwn (h : SecondOnly ws) :
    (optionsRead ws).map (withArg (ws[1]?.getD [])) = (optionsRead ws).map withOwn := by
  refine List.map_congr_left fun o ho => ?_
  unfold withArg FtIrc.withOwn
  cases ha : o.2 with
  | none => rfl
  | some a =>
    rw [h o ho a ha]
    rfl

/-- An operator whom no `-o` names is one afterwards. -/
theorem Configured.still_operator {ch' : Ch} (h : Configured who (executed os) ch ch') (hop : x ∈ ch.adms)
    (hwho : who [] ≠ x) (hself : ∀ o ∈ os, o.1 = str "-o" → ∀ w ∈ splitArgToSubargs o.2, who w ≠ x) : x ∈ ch'.adms := by
  have hlast := h.adms x
  rw [decide_eq_true hop, lastSet_of_forall] at hlast
  · exact of_decide_eq_true hlast
  intro e he v hv
  unfold opSet at hv
  split at hv
  · rename_i hx
    split at hv
    · exact (Option.some.inj hv).symm
    · split at hv
      · rename_i hm
        obtain ⟨o, ho, hminus, hnil | hin⟩ := mem_executed_minus he hm
        · exact absurd (hnil ▸ hx.1) hwho
        · exact absurd hx.1 (hself o ho hminus e.2 hin)
      · cases hv
  · cases hv

/-- **The lines, one for each option**: they go well, and each option has its own argument. -/
theorem execLines_mode : ∀ (wss : List (List Str)) (lines : List Str) (s : Server) (c : Cli) (ch : Ch), Inv s →
    s.cliAt x = some c → s.chs[k]? = some ch → x ∈ ch.adms →
    lines.map splitCmdToArgs = wss.map (fun ws => str "MODE" :: k :: ws) → (∀ ws ∈ wss, SecondOnly ws) →
    (∀ o ∈ wss.flatMap (fun ws => (optionsRead ws).map withOwn), o.1 = str "-o" →
      ∀ w ∈ splitArgToSubargs o.2, s.getCli w ≠ x) →
    ∃ t ch', Runs.run (fun s line => s.execLine x line) lines s = .ok t ∧ t.chs[k]? = some ch' ∧
      Configured s.getCli (executed (wss.flatMap fun ws => (optionsRead ws).map withOwn)) ch ch'
  | [], lines, s, c, ch, _, _, hch, _, hlines, _, _ => by
    rw [List.map_nil, List.map_eq_nil_iff] at hlines
    subst hlines
    exact ⟨s, ch, rfl, hch, .nil⟩
  | ws :: wss, lines, s, c, ch, hI, hc, hch, hop, hlines, hsecond, hself => by
    rw [List.map_cons] at hlines
    obtain ⟨line, lines, rfl, hline, hlines⟩ := List.map_eq_cons_iff.mp hlines
    have hcmd : CmdIs (splitCmdToArgs line) "MODE" := by rw [hline]; rfl
    have ha1 : (splitCmdToArgs line)[1]? = some k := by rw [hline]; rfl
    obtain ⟨u, hu, hmoded⟩ := execLine_mode hI hc hch hop hcmd ha1
    have hone := configured_line s.getCli c ch (splitCmdToArgs line)
    have hdrop : (splitCmdToArgs line).drop 2 = ws := by rw [hline]; rfl
    have h3 : argD (splitCmdToArgs line) 3 = ws[1]?.getD [] := by rw [hline]; rfl
    rw [hdrop, h3, (hsecond ws (List.mem_cons_self ..)).withOwn] at hone
    generalize modeCh s.getCli c (splitCmdToArgs line)
      (modePairs (splitCmdToArgs line) (splitCmdToArgs line).length 2) ch = ch₁ at hmoded hone
    rw [List.flatMap_cons, List.forall_mem_append] at hself
    have hwho : s.getCli [] ≠ x := fun h => getCli_nil_not_mem hI hch (h ▸ hI.adm k ch hch x hop)
    have hop₁ : x ∈ ch₁.adms := hone.still_operator hop hwho hself.1
    obtain ⟨d, hd, -⟩ := hmoded.clis x c hc
    have hch₁ : u.chs[k]? = some ch₁ := by rw [hmoded.chs, if_pos rfl]
    obtain ⟨t, ch', ht, hch', hconf⟩ := execLines_mode wss lines u d ch₁ hmoded.inv hd hch₁ hop₁ hlines
      (fun ws' hws' => hsecond ws' (List.mem_cons_of_mem _ hws')) (by
        rw [hmoded.who]
        exact hself.2)
    refine ⟨t, ch', Runs.run_cons_ok.mpr ⟨u, hu, ht⟩, hch', ?_⟩
    rw [hmoded.who] at hconf
    unfold executed at hone hconf ⊢
    rw [List.flatMap_cons, List.flatMap_append]
    exact hone.append hconf

/-! ## A name that is no word -/

/-- The channel that a line names: the name up to its first space or colon. -/
theorem args_modeCmd (hk : addressee k ≠ []) (ws : List Str) :
    ∃ more, splitCmdToArgs (modeCmd k ws) = str "MODE" :: addressee k :: more := by
  obtain ⟨more, hmore⟩ : ∃ more, rawArgs (k ++ renderParams ws none) = addressee k :: more := by
    obtain ⟨hspace, hcolon⟩ := addressee_word k
    have hsplit := addressee_split k
    generalize addressee k = w at hk hspace hcolon hsplit
    rcases hsplit with rfl | ⟨r, rfl⟩ | ⟨r, rfl⟩
    · exact ⟨_, rawArgs_word_params hk hspace hcolon⟩
    · rw [List.append_assoc, List.cons_append, rawArgs_word_space hk hspace hcolon]
      exact ⟨_, rfl⟩
    · rw [List.append_assoc, List.cons_append, rawArgs_colon hcolon, splitAll_word hk hspace]
      exact ⟨_, rfl⟩
  have hraw : rawArgs (modeCmd k ws) = str "MODE" :: addressee k :: more := by
    unfold modeCmd
    rw [rawArgs_word_params (by decide) (by decide) (by decide), renderParams, rawArgs_space, hmore]
  rw [splitCmdToArgs_eq, hraw]
  exact ⟨_, rfl⟩

/-- A `MODE` line that names something else leaves the channel alone. -/
theorem execLine_mode_elsewhere {line : Str} {more : List Str} (hI : Inv s) (hch : s.chs[k]? = some ch)
    (hop : x ∈ ch.adms) (hline : splitCmdToArgs line = str "MODE" :: w :: more) (hw : w.head? = some HASH) (hne : k ≠ w) :
    ((∃ s', s.execLine x line = .ok s') ↔ KeySpelled s w) ∧ ∀ s', s.execLine x line = .ok s' →
      Inv s' ∧ s'.chs[k]? = some ch ∧ (KeySpelled s' w ↔ KeySpelled s w) := by
  obtain ⟨c, hc, hreg⟩ := hI.member k ch hch x (hI.adm k ch hch x hop)
  have hcmd : CmdIs (splitCmdToArgs line) "MODE" := by rw [hline]; rfl
  have ha1 : (splitCmdToArgs line)[1]? = some w := by rw [hline]; rfl
  constructor
  · rw [execLine_ok_iff hI hc, cmdSafe_mode hcmd, namedOk_iff ⟨c, hc, hreg⟩ ha1, ha1]
    exact ⟨fun h => h fun a1 ha1 => by rw [← Option.some.inj ha1]; exact hw, fun h _ => h⟩
  · intro s' hs'
    have hinv := execLine_inv hI hc hs'
    obtain ⟨u, -, rfl, rfl, -, -⟩ := execLine_run hI hc hs'
    generalize splitCmdToArgs line = ar at hcmd ha1 hinv ⊢
    have hlen := (List.getElem?_eq_some_iff.mp ha1).1
    have hrun : (cmdRun s x c ar).1 = modeDone s x c ar := by
      rw [cmdRun_mode hcmd]
      unfold modeRun registeredRun
      rw [if_neg (by omega), argD_of_getElem? ha1, if_pos hw, if_neg (by simp [hreg])]
    have hchs : ∀ j, ((((cmdRun s x c ar).1.sendAll (cmdRun s x c ar).2).note x ar).chs[j]? =
        if j = w ∧ Op s x w then (s.chs[j]?).map (modeCh s.getCli c ar (modePairs ar ar.length 2)) else s.chs[j]?) := by
      intro j
      rw [chs_note, chs_sendAll, hrun]
      unfold modeDone
      rw [argD_of_getElem? ha1]
      by_cases hopw : Op s x w
      · rw [if_pos hopw, getElem?_chs_updCh]
        simp only [hopw, and_true]
      · rw [if_neg hopw, if_neg fun h => hopw h.2]
    have hkeys : ∀ j, j ∈ (((cmdRun s x c ar).1.sendAll (cmdRun s x c ar).2).note x ar).chs ↔ j ∈ s.chs := by
      intro j
      rw [ExtTreeMap.mem_iff_isSome_getElem?, ExtTreeMap.mem_iff_isSome_getElem?, hchs]
      split
      · rw [Option.isSome_map]
      · rfl
    refine ⟨hinv, ?_, ?_⟩
    · rw [hchs, if_neg fun h => hne h.1]
      exact hch
    · unfold KeySpelled
      rw [Ne, Ne, getCh_none_iff, getCh_none_iff]
      simp only [hkeys]

theorem execLines_mode_elsewhere (hw : w.head? = some HASH) (hne : k ≠ w) : ∀ (lines : List Str) (s : Server), Inv s →
    s.chs[k]? = some ch → x ∈ ch.adms → KeySpelled s w →
    (∀ line ∈ lines, ∃ more, splitCmdToArgs line = str "MODE" :: w :: more) →
    ∃ t, Runs.run (fun s line => s.execLine x line) lines s = .ok t ∧ t.chs[k]? = some ch
  | [], s, _, hch, _, _, _ => ⟨s, rfl, hch⟩
  | line :: lines, s, hI, hch, hop, hspelt, hlines => by
    obtain ⟨more, hline⟩ := hlines line (List.mem_cons_self ..)
    obtain ⟨hiff, hleft⟩ := execLine_mode_elsewhere hI hch hop hline hw hne
    obtain ⟨u, hu⟩ := hiff.mpr hspelt
    obtain ⟨hIu, hchu, hspeltu⟩ := hleft u hu
    obtain ⟨t, ht, hcht⟩ := execLines_mode_elsewhere hw hne lines u hIu hchu hop (hspeltu.mpr hspelt)
      fun l hl => hlines l (List.mem_cons_of_mem _ hl)
    exact ⟨t, Runs.run_cons_ok.mpr ⟨u, hu, ht⟩, hcht⟩

/-! ## The law -/

/-- The options that are read on a line with these words, each with the second word as its argument. -/
def onLine (ws : List Str) : List (Str × Str) :=
  (optionsRead (wordsRead ws)).map (withArg ((wordsRead ws)[1]?.getD []))

/-- The options that are read on a line of their own, each with its own argument. -/
def oneByOne (os : List ModeOption) : List (Str × Str) :=
  os.flatMap fun o => (optionsRead (wordsRead o.words)).map withOwn

/-- **The line of a channel that it names**: the options that are read on it decide, with `ar[3]` as the argument of
each, what the options decide with their own arguments. -/
theorem sequence_word {os : List ModeOption} (hr : Reachable pass lfd cfg) (hch : cfg.srv.chs[k]? = some ch)
    (hop : x ∈ ch.adms) (hk : SPACE ∉ k ∧ COLON ∉ k)
    (hself : ∀ o ∈ oneByOne os, o.1 = str "-o" → ∀ w ∈ splitArgToSubargs o.2, cfg.srv.getCli w ≠ x) :
    ∃ s' t, cfg.srv.execLine x (modeCmd k (os.flatMap ModeOption.words)) = .ok s' ∧
      Runs.run (fun s line => s.execLine x line) (os.map fun o => modeCmd k o.words) cfg.srv = .ok t ∧
      (SameModes s' t k ↔ Decided (onLine (os.flatMap ModeOption.words)) (oneByOne os) cfg.srv.getCli ch) := by
  have hI := hr.good.inv
  obtain ⟨c, hc, -⟩ := hI.member k ch hch x (hI.adm k ch hch x hop)
  have hne : k ≠ [] := by
    rintro rfl
    exact absurd (hI.ch_name [] (mem_chs.mpr ⟨ch, hch⟩)).long (by simp)
  have hline := splitCmdToArgs_modeCmd ⟨hne, hk⟩ (os.flatMap ModeOption.words)
  have hlines : (os.map fun o => modeCmd k o.words).map splitCmdToArgs =
      (os.map fun o => wordsRead o.words).map fun ws => str "MODE" :: k :: ws := by
    rw [List.map_map, List.map_map]
    exact List.map_congr_left fun o _ => splitCmdToArgs_modeCmd ⟨hne, hk⟩ o.words
  obtain ⟨s', hs', hmoded⟩ := execLine_mode hI hc hch hop (by rw [hline]; rfl) (by rw [hline]; rfl)
  have h₁ := configured_line cfg.srv.getCli c ch (splitCmdToArgs (modeCmd k (os.flatMap ModeOption.words)))
  have hdrop : (splitCmdToArgs (modeCmd k (os.flatMap ModeOption.words))).drop 2 =
      wordsRead (os.flatMap ModeOption.words) := by
    rw [hline]
    rfl
  have h3 : argD (splitCmdToArgs (modeCmd k (os.flatMap ModeOption.words))) 3 =
      (wordsRead (os.flatMap ModeOption.words))[1]?.getD [] := by
    rw [hline]
    rfl
  rw [hdrop, h3] at h₁
  obtain ⟨t, ch₂, ht, hch₂, h₂⟩ := execLines_mode _ _ cfg.srv c ch hI hc hch hop hlines
    (List.forall_mem_map.mpr fun o _ => secondOnly_words o) (by
      rw [List.flatMap_map]
      exact hself)
  rw [List.flatMap_map] at h₂
  refine ⟨s', t, hs', ht, ?_⟩
  have hch₁ := hmoded.chs k
  rw [if_pos rfl] at hch₁
  refine Iff.trans ⟨?_, fun h => ⟨_, _, hch₁, hch₂, h⟩⟩ (configured_same_iff h₁ h₂ (getCli_nil_not_mem hI hch))
  rintro ⟨d₁, d₂, hd₁, hd₂, h⟩
  rw [hch₁] at hd₁
  rw [hch₂] at hd₂
  cases hd₁
  cases hd₂
  exact h

/-- The options that decide are the same; or the line names something else, and that is no channel's name in another
spelling. -/
def InOrder (s : Server) (k : Str) (ch : Ch) (os : List ModeOption) : Prop :=
  if SPACE ∉ k ∧ COLON ∉ k then Decided (onLine (os.flatMap ModeOption.words)) (oneByOne os) s.getCli ch
  else KeySpelled s (addressee k)

/-- **A MODE line is the sequence of its options** exactly if it is `InOrder`. -/
theorem sequence_iff {os : List ModeOption} (hr : Reachable pass lfd cfg) (hch : cfg.srv.chs[k]? = some ch)
    (hop : x ∈ ch.adms)
    (hself : ∀ o ∈ oneByOne os, o.1 = str "-o" → ∀ w ∈ splitArgToSubargs o.2, cfg.srv.getCli w ≠ x) :
    (∃ s' t, cfg.srv.execLine x (modeCmd k (os.flatMap ModeOption.words)) = .ok s' ∧
      Runs.run (fun s line => s.execLine x line) (os.map fun o => modeCmd k o.words) cfg.srv = .ok t ∧
      SameModes s' t k) ↔ InOrder cfg.srv k ch os := by
  have hI := hr.good.inv
  unfold InOrder
  split
  case isTrue hk =>
    obtain ⟨s', t, hs', ht, hiff⟩ := sequence_word hr hch hop hk hself
    rw [← hiff]
    refine ⟨?_, fun h => ⟨s', t, hs', ht, h⟩⟩
    rintro ⟨u, v, hu, hv, h⟩
    rw [hs'] at hu
    rw [ht] at hv
    cases hu
    cases hv
    exact h
  case isFalse hk =>
    have hhash := addressee_hash (hI.ch_name k (mem_chs.mpr ⟨ch, hch⟩))
    have hne : k ≠ addressee k := fun h => hk (h ▸ addressee_word k)
    have hargs := args_modeCmd (k := k) fun h => by rw [h] at hhash; cases hhash
    obtain ⟨more, hline⟩ := hargs (os.flatMap ModeOption.words)
    obtain ⟨hiff, hleft⟩ := execLine_mode_elsewhere hI hch hop hline hhash hne
    refine ⟨fun ⟨s', _, hs', _⟩ => hiff.mp ⟨s', hs'⟩, fun hspelt => ?_⟩
    obtain ⟨s', hs'⟩ := hiff.mpr hspelt
    obtain ⟨t, ht, hcht⟩ := execLines_mode_elsewhere hhash hne _ cfg.srv hI hch hop hspelt
      (List.forall_mem_map.mpr fun (o : ModeOption) _ => hargs o.words)
    exact ⟨s', t, hs', ht, ch, ch, (hleft s' hs').2.1, hcht, rfl, rfl, rfl, rfl, rfl⟩

/-- A key, a limit that is taken back, and a flag. -/
def keyFirst : List ModeOption := [⟨str "+k", some (str "key"), by decide, by decide⟩,
  ⟨str "+l", some (str "5"), by decide, by decide⟩, ⟨str "-l", none, by decide, by decide⟩,
  ⟨str "+i", none, by decide, by decide⟩]

/-- A flag and a key. -/
def flagFirst : List ModeOption := [⟨str "+i", none, by decide, by decide⟩,
  ⟨str "+k", some (str "key"), by decide, by decide⟩]

/-- With the key in front, the line is the sequence of its options. -/
theorem sequence_iff_keyFirst : ∃ cfg s' t, Reachable (str "2") 3 cfg ∧ Op cfg.srv alice.addr (str "#c") ∧
    cfg.srv.execLine alice.addr (str "MODE #c +k key +l 5 -l +i") = .ok s' ∧
    Runs.run (fun s line => s.execLine alice.addr line)
      [str "MODE #c +k key", str "MODE #c +l 5", str "MODE #c -l", str "MODE #c +i"] cfg.srv = .ok t ∧
    SameModes s' t (str "#c") := by
  obtain ⟨cfg, hrun, hP⟩ := exists_run (str "2") 3 (connect 0 alice ++
    say 0 0 4 (register "al" ++ str "JOIN #c\r\n"))
    (fun cfg => (cfg.srv.chs[str "#c"]?).any fun ch : Ch => decide (alice.addr ∈ ch.adms) && decide (ch.pass = []))
    (by decide +kernel)
  simp only [Option.any_eq_true, Bool.and_eq_true, decide_eq_true_eq] at hP
  obtain ⟨ch, hch, hop, hpass⟩ := hP
  have hno : ∀ o ∈ oneByOne keyFirst, o.1 ≠ str "-o" := by decide
  have hself : ∀ o ∈ oneByOne keyFirst, o.1 = str "-o" →
      ∀ w ∈ splitArgToSubargs o.2, cfg.srv.getCli w ≠ alice.addr := fun o ho he => absurd he (hno o ho)
  -- the line sets the limit 0 where the sequence sets 5, and both go with `-l`
  have hline : onLine (keyFirst.flatMap ModeOption.words) =
      [(str "+k", str "key"), (str "+l", str "key"), (str "-l", []), (str "+i", [])] := by decide
  have hseq : oneByOne keyFirst = [(str "+k", str "key"), (str "+l", str "5"), (str "-l", []), (str "+i", [])] := by
    decide
  have horder : InOrder cfg.srv (str "#c") ch keyFirst := by
    refine (if_pos (by decide)).mpr ?_
    rw [hline, hseq]
    constructor
    case key =>
      rw [hpass]
      exact ⟨rfl, fun _ => rfl⟩
    case limit => exact ⟨rfl, fun h => absurd h (by decide)⟩
    case optI => exact (rfl : str "+i" = str "+i")
    case optT => trivial
    case operators => exact fun p _ => trivial
  obtain ⟨s', t, hs', ht, hsame⟩ := (sequence_iff ⟨_, hrun⟩ hch hop hself).mpr horder
  exact ⟨cfg, s', t, ⟨_, hrun⟩, ⟨ch, hch, hop⟩, hs', ht, hsame⟩

/-- With a flag in front, the key is the name of the option. -/
theorem flagFirst_differs : ¬ ∀ (pass : Str) (lfd : Nat) (cfg : Config), Reachable pass lfd cfg →
    ∀ (x : Ptr) (k : Str) (ch : Ch) (os : List ModeOption), cfg.srv.chs[k]? = some ch → x ∈ ch.adms →
      (∀ o ∈ oneByOne os, o.1 = str "-o" → ∀ w ∈ splitArgToSubargs o.2, cfg.srv.getCli w ≠ x) →
      ∃ s' t, cfg.srv.execLine x (modeCmd k (os.flatMap ModeOption.words)) = .ok s' ∧
        Runs.run (fun s line => s.execLine x line) (os.map fun o => modeCmd k o.words) cfg.srv = .ok t ∧
        SameModes s' t k := by
  intro hall
  obtain ⟨cfg, hrun, hP⟩ := exists_run (str "2") 3 (connect 0 alice ++
    say 0 0 4 (register "al" ++ str "JOIN #c\r\n"))
    (fun cfg => (cfg.srv.chs[str "#c"]?).any fun ch : Ch => decide (alice.addr ∈ ch.adms) &&
      ((cfg.srv.execLine alice.addr (str "MODE #c +i +k key")).toOption.any fun s' =>
        (s'.chs[str "#c"]?).any fun ch' : Ch => ch'.pass = str "+k") &&
      ((Runs.run (fun s line => s.execLine alice.addr line) [str "MODE #c +i", str "MODE #c +k key"]
        cfg.srv).toOption.any fun t => (t.chs[str "#c"]?).any fun ch' : Ch => ch'.pass = str "key")) (by decide +kernel)
  simp only [Option.any_eq_true, Bool.and_eq_true, decide_eq_true_eq] at hP
  obtain ⟨ch, hch, ⟨hop, s', hs', ch₁, hch₁, hpass₁⟩, t, ht, ch₂, hch₂, hpass₂⟩ := hP
  have hno : ∀ o ∈ oneByOne flagFirst, o.1 ≠ str "-o" := by decide
  obtain ⟨u, v, hu, hv, d₁, d₂, hd₁, hd₂, hsame, -⟩ := hall _ _ cfg ⟨_, hrun⟩ _ _ ch flagFirst hch hop
    fun o ho he => absurd he (hno o ho)
  have hu' : cfg.srv.execLine alice.addr (str "MODE #c +i +k key") = .ok u := hu
  have hv' : Runs.run (fun s line => s.execLine alice.addr line) [str "MODE #c +i", str "MODE #c +k key"] cfg.srv =
      .ok v := hv
  rw [eq_ok_of_toOption hs'] at hu'
  rw [eq_ok_of_toOption ht] at hv'
  cases hu'
  cases hv'
  rw [hch₁] at hd₁
  rw [hch₂] at hd₂
  cases hd₁
  cases hd₂
  rw [hpass₁, hpass₂] at hsame
  exact absurd hsame (by decide)

end FtIrc
