import FtIrc.Meaning.Operator

/-!
# What MODE comes to

A `MODE` line of an operator is a list of options with their values (`modePairs`); each is refused
with a reply that depends on the channel at that moment (`optionReply`), or changes the channel
(`optionCh`) and is announced.  `modeCh` and `modeMail` run through the list.
-/

namespace FtIrc

open Std Outcome Server

variable {s s' u : Server} {x y p : Ptr} {ar : List Str} {c d : Cli} {k n name m a1 a2 opt val : Str}
  {ch : Ch} {mail : Mail} {who : Str → Ptr}

/-! ## One option -/

/-- The channel after an option; `who` answers to a nick. -/
def optionCh (who : Str → Ptr) (opt val : Str) (ch : Ch) : Ch :=
  if opt = str "+i" then { ch with optI := true }
  else if opt = str "-i" then { ch with optI := false }
  else if opt = str "+t" then { ch with optT := true }
  else if opt = str "-t" then { ch with optT := false }
  else if opt = str "-l" then { ch with limit := UINT_MAX }
  else if opt = str "+k" then { ch with pass := val }
  else if opt = str "-k" then { ch with pass := [] }
  else if opt = str "+l" ∧ 0 ≤ atoi val ∧ toUInt32 (atoi val) ≤ UINT_MAX then
    { ch with limit := toUInt32 (toInt32 (strtol val)) }
  else if opt = str "+o" then { ch with adms := ch.adms.insert (who val) }
  else if opt = str "-o" then { ch with adms := ch.adms.erase (who val) }
  else ch

/-- The reply to an option that is refused. -/
def optionReply (who : Str → Ptr) (c : Cli) (ar : List Str) (opt val : Str) (ch : Ch) : Option Str :=
  if opt ∉ modeOpts then some (str "472 " ++ opt ++ str " :is unknown mode char to me for " ++ val)
  else if val = [] ∧ opt ∉ modeOptsNoVal then some (str "461 MODE :Not enough parameters")
  else if opt = str "+k" ∧ ch.pass ≠ [] then
    some (str "467 " ++ argD ar 1 ++ str " :Channel key already set")
  else if opt = str "+l" ∧ badLimit (atoi (argD ar 3)) (atoi (argD ar 3)) then
    some (str "472 " ++ c.nick ++ str " " ++ opt ++ str " :is unknown mode char to me")
  else if (opt = str "+o" ∨ opt = str "-o") ∧ who val ∉ ch.clis then
    some (str "441 " ++ val ++ str " " ++ argD ar 1 ++ str " :They aren't on that channel!!!")
  else if opt = str "+l" ∧ badLimit (atoi val) (atoi (argD ar 3)) then
    some (str "? " ++ opt ++ str " " ++ val ++ str " MODE :bad option value")
  else none

/-- The line that announces an option. -/
def modeLine (c : Cli) (a1 opt : Str) : Str :=
  str ":" ++ hostPrefix c ++ str " MODE " ++ a1 ++ str " " ++ opt

theorem clis_optionCh : (optionCh who opt val ch).clis = ch.clis := by
  unfold optionCh
  repeat' split
  all_goals rfl

/-- The operators after an option. -/
theorem adms_of_optionCh : (optionCh who opt val ch).adms =
    if opt = str "+o" then ch.adms.insert (who val)
    else if opt = str "-o" then ch.adms.erase (who val) else ch.adms := by
  by_cases ho : opt = str "+o"
  · rw [if_pos ho, ho]
    rfl
  rw [if_neg ho]
  by_cases hd : opt = str "-o"
  · rw [if_pos hd, hd]
    rfl
  rw [if_neg hd]
  unfold optionCh
  rw [if_neg ho, if_neg hd]
  repeat' split
  all_goals rfl

/-- An option that is not refused makes operators of members only. -/
theorem adms_optionCh (hadm : ∀ q ∈ ch.adms, q ∈ ch.clis) (h : opt = str "+o" → who val ∈ ch.clis) :
    ∀ q ∈ (optionCh who opt val ch).adms, q ∈ (optionCh who opt val ch).clis := by
  intro q hq
  rw [clis_optionCh]
  rw [adms_of_optionCh] at hq
  split at hq
  · rename_i ho
    rcases mem_insert_iff.mp hq with rfl | hq
    · exact h ho
    · exact hadm q hq
  · split at hq
    · exact hadm q (mem_erase_iff.mp hq).2
    · exact hadm q hq

theorem applyOption_run (hI : Inv u) (hch : u.chs[a1]? = some ch) :
    (u.sendAll mail).applyOption a1 opt val =
      .ok ((u.updCh a1 fun _ => optionCh u.getCli opt val ch).sendAll mail) := by
  have hget : (u.sendAll mail).getCh a1 = some a1 := by
    rw [getCh_sendAll, getCh_self hI (mem_chs.mpr ⟨ch, hch⟩)]
  have hset : ∀ g : Ch → Ch, (u.sendAll mail).setCh a1 g =
      .ok ((u.updCh a1 fun _ => g ch).sendAll mail) := fun g => by
    rw [setCh_ok hget, updCh_sendAll, updCh_const hch]
  unfold applyOption optionCh
  by_cases h1 : opt = str "+i"
  · rw [if_pos h1, if_pos h1]
    exact hset _
  rw [if_neg h1, if_neg h1]
  by_cases h2 : opt = str "-i"
  · rw [if_pos h2, if_pos h2]
    exact hset _
  rw [if_neg h2, if_neg h2]
  by_cases h3 : opt = str "+t"
  · rw [if_pos h3, if_pos h3]
    exact hset _
  rw [if_neg h3, if_neg h3]
  by_cases h4 : opt = str "-t"
  · rw [if_pos h4, if_pos h4]
    exact hset _
  rw [if_neg h4, if_neg h4]
  by_cases h5 : opt = str "-l"
  · rw [if_pos h5, if_pos h5]
    exact hset _
  rw [if_neg h5, if_neg h5]
  by_cases h6 : opt = str "+k"
  · rw [if_pos h6, if_pos h6]
    exact hset _
  rw [if_neg h6, if_neg h6]
  by_cases h7 : opt = str "-k"
  · rw [if_pos h7, if_pos h7]
    exact hset _
  rw [if_neg h7, if_neg h7]
  by_cases h8 : opt = str "+l" ∧ 0 ≤ atoi val ∧ toUInt32 (atoi val) ≤ UINT_MAX
  · rw [if_pos h8, if_pos h8]
    exact hset _
  rw [if_neg h8, if_neg h8]
  by_cases h9 : opt = str "+o"
  · rw [if_pos h9, if_pos h9, getCli_sendAll]
    exact hset _
  rw [if_neg h9, if_neg h9]
  by_cases h10 : opt = str "-o"
  · rw [if_pos h10, if_pos h10, getAdmOnCh_sendAll, getAdmOnCh_eq hI hch, getCli_sendAll]
    by_cases hop : u.getCli val ∈ ch.adms
    · obtain ⟨d, -, hd, -⟩ := member_live hI hch (hI.adm a1 ch hch _ hop)
      rw [if_pos hop]
      show (if u.getCli val ≠ NULL then _ else _) = _
      rw [if_pos (ne_null_of_cliAt hI hd)]
      exact hset _
    · rw [if_neg hop, erase_of_not_mem hop]
      show Except.ok (u.sendAll mail) = _
      rw [updCh_self hch]
  · rw [if_neg h10, if_neg h10, updCh_self hch]

/-- The channel after an option, refused or not. -/
def optionDone (who : Str → Ptr) (c : Cli) (ar : List Str) (opt val : Str) (ch : Ch) : Ch :=
  if optionReply who c ar opt val ch = none then optionCh who opt val ch else ch

/-- The lines for an option. -/
def optionMail (who : Str → Ptr) (x : Ptr) (c : Cli) (ar : List Str) (opt val : Str) (ch : Ch) : Mail :=
  match optionReply who c ar opt val ch with
  | some m => [(x, m)]
  | none => bcast ch (modeLine c (argD ar 1) opt)

/-- A conditional assignment whose computation succeeds. -/
theorem ite_assign_ok {ε α β γ : Type} {b : Prop} [Decidable b] {y : Except ε γ} {v : γ} {g : γ → α} {a : α}
    {f : α → Except ε β} (hy : b → y = .ok v) :
    (if b then y >>= fun v => (Except.ok (g v) : Except ε α) >>= f
      else (Except.ok a : Except ε α) >>= f) = f (if b then g v else a) := by
  by_cases hb : b
  · rw [if_pos hb, if_pos hb, hy hb]
    rfl
  · rw [if_neg hb, if_neg hb]
    rfl

/-- A conditional reading that succeeds. -/
theorem ite_bind_ok {ε α β : Type} {b : Prop} [Decidable b] {y : Except ε α} {v a : α}
    {f : α → Except ε β} (hy : b → y = .ok v) :
    (if b then y >>= f else (Except.ok a : Except ε α) >>= f) = f (if b then v else a) := by
  by_cases hb : b
  · rw [if_pos hb, if_pos hb, hy hb]
    rfl
  · rw [if_neg hb, if_neg hb]
    rfl

theorem inv_optionCh (hI : Inv u) (hch : u.chs[a1]? = some ch)
    (h : opt = str "+o" → who val ∈ ch.clis) : Inv (u.updCh a1 fun _ => optionCh who opt val ch) := by
  refine inv_updCh hI hch (fun q hq => .inl ?_) (adms_optionCh (hI.adm a1 ch hch) h)
  rw [clis_optionCh] at hq
  exact hq

/-- **One option**: refused with a reply, or applied and announced. -/
theorem execModeOneOoption_run (hI : Inv u) (hc : u.cliAt x = some c) (hch : u.chs[a1]? = some ch)
    (ha1 : ar[1]? = some a1) (h3 : opt = str "+l" → val ≠ [] → ∃ a3, ar[3]? = some a3) (mail : Mail) :
    (u.sendAll mail).execModeOneOoption x ar opt val =
      .ok ((u.updCh a1 fun _ => optionDone u.getCli c ar opt val ch).sendAll
        (mail ++ optionMail u.getCli x c ar opt val ch)) := by
  have harg := argD_of_getElem? ha1
  have hself : u.getCh a1 = some a1 := getCh_self hI (mem_chs.mpr ⟨ch, hch⟩)
  obtain ⟨r, hr⟩ : ∃ r, optionReply u.getCli c ar opt val ch = r := ⟨_, rfl⟩
  have hrefuse : ∀ m, r = some m →
      (u.sendAll mail).prepareResp x m =
        .ok ((u.updCh a1 fun _ => optionDone u.getCli c ar opt val ch).sendAll
          (mail ++ optionMail u.getCli x c ar opt val ch)) := by
    intro m hm
    unfold optionDone optionMail
    rw [hr, hm, if_neg (by simp), updCh_self hch]
    exact reply_sendAll hI hc m
  have hreply := hr.symm
  unfold optionReply at hreply
  unfold execModeOneOoption
  rw [deref_sendAll (deref_of_cliAt hI hc)]
  show (if opt ∉ modeOpts then _ else if val = [] ∧ opt ∉ modeOptsNoVal then _ else
    arg ar 1 >>= _) = _
  by_cases hknown : opt ∉ modeOpts
  · rw [if_pos hknown] at hreply ⊢
    exact hrefuse _ hreply
  rw [if_neg hknown] at hreply ⊢
  by_cases hmissing : val = [] ∧ opt ∉ modeOptsNoVal
  · rw [if_pos hmissing] at hreply ⊢
    exact hrefuse _ hreply
  rw [if_neg hmissing] at hreply ⊢
  have hl3 : opt = str "+l" → arg ar 3 = .ok (argD ar 3) := fun hl => by
    obtain ⟨a3, ha3⟩ := h3 hl fun h0 => hmissing ⟨h0, by rw [hl]; decide⟩
    rw [arg_ok ha3, argD_of_getElem? ha3]
  rw [arg_ok ha1]
  -- the key must not be set
  refine (ite_assign_ok (b := opt = str "+k") (v := ch) fun _ => ?_).trans ?_
  · rw [getCh_sendAll, hself, derefCh_sendAll, derefCh_some hch]
  show (if (if opt = str "+k" then decide (ch.pass ≠ []) else false) = true then _ else _) = _
  by_cases hset : opt = str "+k" ∧ ch.pass ≠ []
  · rw [if_pos hset, harg] at hreply
    rw [if_pos hset.1, if_pos (decide_eq_true hset.2)]
    exact hrefuse _ hreply
  rw [if_neg hset] at hreply
  rw [if_neg fun h => hset (by
    split at h
    · rename_i hk
      exact ⟨hk, of_decide_eq_true h⟩
    · cases h)]
  -- the limit must be a number
  refine (ite_assign_ok (b := opt = str "+l") (v := argD ar 3) hl3).trans ?_
  show (if (if opt = str "+l" then decide (badLimit (atoi (argD ar 3)) (atoi (argD ar 3))) else false) =
    true then _ else _) = _
  by_cases hbad : opt = str "+l" ∧ badLimit (atoi (argD ar 3)) (atoi (argD ar 3))
  · rw [if_pos hbad] at hreply
    rw [if_pos hbad.1, if_pos (decide_eq_true hbad.2)]
    exact hrefuse _ hreply
  rw [if_neg hbad] at hreply
  rw [if_neg fun h => hbad (by
    split at h
    · rename_i hk
      exact ⟨hk, of_decide_eq_true h⟩
    · cases h)]
  -- the client must be on the channel
  have hwho : (if u.getCli val ∈ ch.clis then u.getCli val else NULL) = NULL ↔ u.getCli val ∉ ch.clis := by
    by_cases hon : u.getCli val ∈ ch.clis
    · obtain ⟨d, -, hd, -⟩ := member_live hI hch hon
      rw [if_pos hon]
      exact iff_of_false (ne_null_of_cliAt hI hd) (not_not.mpr hon)
    · rw [if_neg hon]
      exact iff_of_true rfl hon
  refine (ite_assign_ok (b := opt = str "+o" ∨ opt = str "-o")
    (v := if u.getCli val ∈ ch.clis then u.getCli val else NULL) fun _ => ?_).trans ?_
  · rw [getCliOnCh_sendAll, getCliOnCh_eq hI hch]
  show (if (if opt = str "+o" ∨ opt = str "-o" then
    decide ((if u.getCli val ∈ ch.clis then u.getCli val else NULL) = NULL) else false) = true
      then _ else _) = _
  by_cases hgone : (opt = str "+o" ∨ opt = str "-o") ∧ u.getCli val ∉ ch.clis
  · rw [if_pos hgone, harg] at hreply
    rw [if_pos hgone.1, if_pos (decide_eq_true (hwho.mpr hgone.2))]
    exact hrefuse _ hreply
  rw [if_neg hgone] at hreply
  rw [if_neg fun h => hgone (by
    split at h
    · rename_i hk
      exact ⟨hk, hwho.mp (of_decide_eq_true h)⟩
    · cases h)]
  -- the limit must fit
  refine (ite_assign_ok (b := opt = str "+l") (v := argD ar 3) hl3).trans ?_
  show (if (if opt = str "+l" then decide (badLimit (atoi val) (atoi (argD ar 3))) else false) =
    true then _ else _) = _
  by_cases hfit : opt = str "+l" ∧ badLimit (atoi val) (atoi (argD ar 3))
  · rw [if_pos hfit] at hreply
    rw [if_pos hfit.1, if_pos (decide_eq_true hfit.2)]
    exact hrefuse _ hreply
  rw [if_neg hfit] at hreply
  rw [if_neg fun h => hfit (by
    split at h
    · rename_i hk
      exact ⟨hk, of_decide_eq_true h⟩
    · cases h), applyOption_run hI hch]
  have hmem : opt = str "+o" → u.getCli val ∈ ch.clis := fun ho => by
    by_contra hno
    exact hgone ⟨.inl ho, hno⟩
  have hIu := inv_optionCh hI hch hmem
  have hchu : (u.updCh a1 fun _ => optionCh u.getCli opt val ch).chs[a1]? =
      some (optionCh u.getCli opt val ch) := by rw [getElem?_chs_put hch, if_pos rfl]
  show Server.prepareRespAuthorIncluding (Server.sendAll _ mail) (Server.getCh (Server.sendAll _ mail) a1) _ = _
  rw [getCh_sendAll, getCh_updCh, hself, bcast_sendAll hIu hchu]
  unfold optionDone optionMail
  rw [hr, hreply, if_pos rfl, harg]
  unfold bcast
  rw [clis_optionCh]
  rfl

/-! ## The options of a line -/

/-- The value of the option at position `i`. -/
def optVal (ar : List Str) (i : Nat) : Str :=
  if i + 2 ≤ ar.length ∧ argD ar i ∈ modeOptsArg then argD ar 3 else []

/-- An option with its values: the items of the list for `+o` and `-o`. -/
def optPairs (opt val : Str) : List (Str × Str) :=
  if (opt = str "+o" ∨ opt = str "-o") ∧ val ≠ [] then
    (splitArgToSubargs val).map fun v => (opt, v)
  else [(opt, val)]

/-- The options of the line from position `i`, each with its value. -/
def modePairs (ar : List Str) : Nat → Nat → List (Str × Str)
  | 0, _ => []
  | n + 1, i =>
    if i < ar.length then
      optPairs (argD ar i) (optVal ar i) ++
        modePairs ar n (if argD ar i ∈ modeOptsArg then i + 2 else i + 1)
    else []

/-- The channel after a list of options. -/
def modeCh (who : Str → Ptr) (c : Cli) (ar : List Str) : List (Str × Str) → Ch → Ch
  | [], ch => ch
  | o :: os, ch => modeCh who c ar os (optionDone who c ar o.1 o.2 ch)

/-- The lines for a list of options. -/
def modeMail (who : Str → Ptr) (x : Ptr) (c : Cli) (ar : List Str) : List (Str × Str) → Ch → Mail
  | [], _ => []
  | o :: os, ch =>
    optionMail who x c ar o.1 o.2 ch ++ modeMail who x c ar os (optionDone who c ar o.1 o.2 ch)

theorem modeCh_append (os os' : List (Str × Str)) (ch : Ch) :
    modeCh who c ar (os ++ os') ch = modeCh who c ar os' (modeCh who c ar os ch) := by
  induction os generalizing ch with
  | nil => rfl
  | cons o os ih => exact ih _

theorem modeMail_append (os os' : List (Str × Str)) (ch : Ch) :
    modeMail who x c ar (os ++ os') ch =
      modeMail who x c ar os ch ++ modeMail who x c ar os' (modeCh who c ar os ch) := by
  induction os generalizing ch with
  | nil => rfl
  | cons o os ih =>
    rw [List.cons_append, modeMail, modeMail, ih, List.append_assoc]
    rfl

theorem optionReply_none (h : optionReply who c ar opt val ch = none) (ho : opt = str "+o" ∨ opt = str "-o") :
    who val ∈ ch.clis := by
  by_contra hno
  unfold optionReply at h
  split at h
  · cases h
  split at h
  · cases h
  split at h
  · cases h
  split at h
  · cases h
  rw [if_pos ⟨ho, hno⟩] at h
  cases h

theorem clis_optionDone : (optionDone who c ar opt val ch).clis = ch.clis := by
  unfold optionDone
  split
  · exact clis_optionCh
  · rfl

@[simp] theorem clis_modeCh (os : List (Str × Str)) : (modeCh who c ar os ch).clis = ch.clis := by
  induction os generalizing ch with
  | nil => rfl
  | cons o os ih =>
    unfold modeCh
    rw [ih, clis_optionDone]

theorem inv_optionDone (hI : Inv u) (hch : u.chs[a1]? = some ch) :
    Inv (u.updCh a1 fun _ => optionDone u.getCli c ar opt val ch) := by
  unfold optionDone
  split
  · rename_i h
    exact inv_optionCh hI hch fun ho => optionReply_none h (.inl ho)
  · rw [updCh_self hch]
    exact hI

/-- What a run of options comes to, from the channel `ch`. -/
def ModeRuns (x : Ptr) (c : Cli) (ar : List Str) (a1 : Str) (os : List (Str × Str))
    (f : Server → Except Fault Server) : Prop :=
  ∀ (u : Server) (ch : Ch) (mail : Mail), Inv u → u.cliAt x = some c → u.chs[a1]? = some ch →
    f (u.sendAll mail) = .ok ((u.updCh a1 fun _ => modeCh u.getCli c ar os ch).sendAll
      (mail ++ modeMail u.getCli x c ar os ch))

theorem modeRuns_nil : ModeRuns x c ar a1 [] Except.ok := by
  intro u ch mail _ _ hch
  rw [modeCh, modeMail, List.append_nil, updCh_self hch]

theorem modeRuns_one (ha1 : ar[1]? = some a1) (h3 : opt = str "+l" → val ≠ [] → ∃ a3, ar[3]? = some a3) :
    ModeRuns x c ar a1 [(opt, val)] fun s => s.execModeOneOoption x ar opt val := by
  intro u ch mail hI hc hch
  show (u.sendAll mail).execModeOneOoption x ar opt val = _
  rw [execModeOneOoption_run hI hc hch ha1 h3, modeMail, modeMail, List.append_nil]
  rfl

theorem ModeRuns.bind {os os' : List (Str × Str)} {f g : Server → Except Fault Server}
    (hf : ModeRuns x c ar a1 os f) (hg : ModeRuns x c ar a1 os' g)
    (hinv : ∀ (u : Server) (ch : Ch), Inv u → u.chs[a1]? = some ch →
      Inv (u.updCh a1 fun _ => modeCh u.getCli c ar os ch)) :
    ModeRuns x c ar a1 (os ++ os') fun s => f s >>= g := by
  intro u ch mail hI hc hch
  have hchu : (u.updCh a1 fun _ => modeCh u.getCli c ar os ch).chs[a1]? =
      some (modeCh u.getCli c ar os ch) := by rw [getElem?_chs_put hch, if_pos rfl]
  have hrest := hg (u.updCh a1 fun _ => modeCh u.getCli c ar os ch) (modeCh u.getCli c ar os ch)
    (mail ++ modeMail u.getCli x c ar os ch) (hinv u ch hI hch) hc hchu
  show (f (u.sendAll mail) >>= g) = _
  rw [hf u ch mail hI hc hch]
  refine hrest.trans ?_
  rw [updCh_updCh, modeCh_append, modeMail_append, List.append_assoc]
  rfl

theorem inv_modeCh : ∀ (os : List (Str × Str)) (u : Server) (ch : Ch), Inv u →
    u.chs[a1]? = some ch → Inv (u.updCh a1 fun _ => modeCh u.getCli c ar os ch)
  | [], u, ch, hI, hch => by
    rw [modeCh, updCh_self hch]
    exact hI
  | o :: os, u, ch, hI, hch => by
    have hrest := inv_modeCh os (u.updCh a1 fun _ => optionDone u.getCli c ar o.1 o.2 ch)
      (optionDone u.getCli c ar o.1 o.2 ch) (inv_optionDone hI hch)
      (by rw [getElem?_chs_put hch, if_pos rfl])
    rw [updCh_updCh] at hrest
    exact hrest

theorem modeVals_run (ha1 : ar[1]? = some a1) (ho : opt = str "+o" ∨ opt = str "-o") : ∀ vals : List Str,
    ModeRuns x c ar a1 (vals.map fun v => (opt, v)) (modeVals x ar opt vals)
  | [] => modeRuns_nil
  | val :: vals => by
    refine (modeRuns_one ha1 fun hl => ?_).bind (modeVals_run ha1 ho vals) fun u ch => inv_modeCh _ u ch
    rcases ho with h | h <;> exact absurd (h.symm.trans hl) (by decide)

theorem modeLoop_run (ha1 : ar[1]? = some a1) : ∀ n i : Nat, 2 ≤ i →
    ModeRuns x c ar a1 (modePairs ar n i) (modeLoop x ar n i)
  | 0, _, _ => modeRuns_nil
  | n + 1, i, hi => by
    have hrest := modeLoop_run ha1 n
      (if argD ar i ∈ modeOptsArg then i + 2 else i + 1) (by split <;> omega)
    intro u ch mail hI hc hch
    unfold modeLoop modePairs
    by_cases hlt : i < ar.length
    swap
    · rw [if_neg hlt, if_neg hlt]
      exact modeRuns_nil u ch mail hI hc hch
    obtain ⟨opt, hopt⟩ := exists_arg ar i hlt
    have hargi := argD_of_getElem? hopt
    have hval : i + 2 ≤ ar.length ∧ opt ∈ modeOptsArg → arg ar 3 = .ok (argD ar 3) := fun h => by
      obtain ⟨a3, ha3⟩ := exists_arg ar 3 (by omega)
      rw [arg_ok ha3, argD_of_getElem? ha3]
    have h3 : optVal ar i ≠ [] → ∃ a3, ar[3]? = some a3 := fun hne => by
      unfold optVal at hne
      split at hne
      · exact exists_arg ar 3 (by omega)
      · exact absurd rfl hne
    have hread : (if i + 2 ≤ ar.length ∧ opt ∈ modeOptsArg then argD ar 3 else []) = optVal ar i := by
      rw [optVal, hargi]
    rw [hargi] at hrest
    rw [if_pos hlt, if_pos hlt, arg_ok hopt, hargi]
    refine (ite_bind_ok (a := ([] : Str)) hval).trans ?_
    rw [hread]
    unfold optPairs
    show (if (opt = str "+o" ∨ opt = str "-o") ∧ optVal ar i ≠ [] then
        modeVals x ar opt (splitArgToSubargs (optVal ar i)) (u.sendAll mail) >>= _
      else (u.sendAll mail).execModeOneOoption x ar opt (optVal ar i) >>= _) = _
    by_cases ho : (opt = str "+o" ∨ opt = str "-o") ∧ optVal ar i ≠ []
    · rw [if_pos ho, if_pos ho]
      exact (modeVals_run ha1 ho.1 _).bind hrest (fun u ch => inv_modeCh _ u ch) u ch mail hI hc hch
    · rw [if_neg ho, if_neg ho]
      exact (modeRuns_one ha1 fun _ => h3).bind hrest (fun u ch => inv_modeCh _ u ch) u ch mail hI hc hch

/-! ## The commands -/

/-- The text `mode` returns for the channel `ch`. -/
def modeText (s : Server) (ch : Ch) : Str :=
  let flags := (if ch.optT then str "t" else []) ++ (if ch.optI then str "i" else []) ++
    (if ch.pass ≠ [] then str "k" else []) ++ (if ch.limit < UINT_MAX then str "l" else [])
  (if flags = [] then [] else str "+" ++ flags) ++ str ", " ++ nickList s ch

/-- The lines of `MODE` on a channel. -/
def modeChMail (s : Server) (x : Ptr) (c : Cli) (ar : List Str) : Mail :=
  if s.getCh (argD ar 1) = none then [(x, str "403 " ++ argD ar 1 ++ str " :No such channel")]
  else
    match s.chs[argD ar 1]? with
    | some ch =>
      if x ∉ ch.clis then [(x, str "442 " ++ argD ar 1 ++ str " :You're not on that channel")]
      else if x ∉ ch.adms then [(x, str "482 " ++ argD ar 1 ++ str " :You're not channel operator")]
      else if ar.length = 2 then [(x, str "MODE " ++ argD ar 1 ++ str " " ++ modeText s ch)]
      else modeMail s.getCli x c ar (modePairs ar ar.length 2) ch
    | none => []

/-- The channels after `MODE`. -/
def modeDone (s : Server) (x : Ptr) (c : Cli) (ar : List Str) : Server :=
  if Op s x (argD ar 1) then
    s.updCh (argD ar 1) fun ch => modeCh s.getCli c ar (modePairs ar ar.length 2) ch
  else s

theorem mode_eq (hI : Inv s) (hch : s.chs[k]? = some ch) : s.mode (some k) = .ok (modeText s ch) := by
  unfold mode
  show (s.derefCh (some k) >>= _) = _
  rw [derefCh_some hch]
  have hus : s.users (some k) = .ok (nickList s ch) := users_sendAll hI hch []
  show (s.users (some k) >>= _) = _
  rw [hus]
  rfl

theorem execModeCh_run (hI : Inv s) (hc : s.cliAt x = some c) (hreg : c.registered = true)
    (ha1 : ar[1]? = some a1) (hsafe : KeySpelled s a1) :
    s.execModeCh x ar = .ok ((modeDone s x c ar).sendAll (modeChMail s x c ar)) := by
  have harg := argD_of_getElem? ha1
  have hlt := (List.getElem?_eq_some_iff.mp ha1).1
  -- the channel does not change
  have hreply : ∀ m, ¬ Op s x a1 →
      s.prepareResp x m = .ok ((modeDone s x c ar).sendAll [(x, m)]) := fun m hno => by
    unfold modeDone
    rw [harg, if_neg hno]
    exact reply_ok hI hc m
  unfold execModeCh
  rw [deref_of_cliAt hI hc]
  show (if c.registered = false then _ else arg ar 1 >>= _) = _
  rw [if_neg (by simp [hreg]), arg_ok ha1]
  show (if s.getCh a1 = none then _ else s.getCliOnCh c.nick a1 >>= _) = _
  unfold modeChMail
  rw [harg]
  by_cases hget : s.getCh a1 = none
  · rw [if_pos hget, if_pos hget]
    refine hreply _ ?_
    rintro ⟨ch, hch, -⟩
    rw [getCh_self hI (mem_chs.mpr ⟨ch, hch⟩)] at hget
    cases hget
  have hmem := hsafe hget
  obtain ⟨ch, hch⟩ := mem_chs.mp hmem
  rw [if_neg hget, if_neg hget, getCliOnCh_self hI hch hc rfl, hch]
  by_cases hx : x ∈ ch.clis
  swap
  · rw [if_neg hx]
    show s.prepareResp x _ = .ok ((modeDone s x c ar).sendAll (if x ∉ ch.clis then _ else _))
    rw [if_pos hx]
    exact hreply _ fun hop => hx (hI.adm a1 ch hch x ((op_iff hch).mp hop))
  rw [if_pos hx]
  show (if x = NULL then _ else s.getAdmOnCh c.nick a1 >>= _) =
    .ok ((modeDone s x c ar).sendAll (if x ∉ ch.clis then _ else _))
  rw [if_neg (ne_null_of_cliAt hI hc), if_neg (not_not.mpr hx), getAdmOnCh_self hI hch hc rfl]
  by_cases hop : x ∈ ch.adms
  swap
  · rw [if_neg hop, if_pos hop]
    exact hreply _ fun h => hop ((op_iff hch).mp h)
  rw [if_pos hop, if_neg (not_not.mpr hop)]
  show (if x = NULL then _ else if ar.length = 2 then s.mode (s.getCh a1) >>= _ else _) = _
  rw [if_neg (ne_null_of_cliAt hI hc)]
  have hdone : modeDone s x c ar =
      s.updCh a1 fun _ => modeCh s.getCli c ar (modePairs ar ar.length 2) ch := by
    unfold modeDone
    rw [harg, if_pos ((op_iff hch).mpr hop)]
    exact updCh_const hch _
  rw [hdone]
  by_cases h2 : ar.length = 2
  · have hnone : modePairs ar ar.length 2 = [] := by
      rw [h2, modePairs, if_neg (by omega)]
    rw [if_pos h2, if_pos h2, getCh_self hI hmem, mode_eq hI hch, hnone, modeCh, updCh_self hch]
    exact reply_ok hI hc _
  · rw [if_neg h2, if_neg h2]
    exact modeLoop_run ha1 ar.length 2 (Nat.le_refl 2) s ch [] hI hc hch

/-- The lines of `MODE` on a nick. -/
def modeCliMail (s : Server) (x : Ptr) (c : Cli) (ar : List Str) : Mail :=
  match s.cliAt (s.getCli (argD ar 1)) with
  | none => [(x, str "401 :" ++ argD ar 1 ++ str " No such nick")]
  | some d =>
    if d.nick ≠ c.nick then [(x, str "502 :" ++ argD ar 1 ++ str " :Can't change mode for other users")]
    else if ar.length = 2 then [(x, str "221 :" ++ c.nick ++ str " ")]
    else if 3 < ar.length ∧ argD ar 2 = str "+i" then
      [(x, str ":" ++ hostPrefix c ++ str " MODE " ++ argD ar 1 ++ str " +i ")]
    else []

theorem execModeCli_run (hI : Inv s) (hc : s.cliAt x = some c) (ha1 : ar[1]? = some a1) :
    s.execModeCli x ar = .ok (s.sendAll (modeCliMail s x c ar)) := by
  unfold execModeCli modeCliMail
  rw [deref_of_cliAt hI hc, argD_of_getElem? ha1]
  show (arg ar 1 >>= _) = _
  rw [arg_ok ha1]
  show (if s.getCli a1 = NULL then _ else s.deref (s.getCli a1) >>= _) = _
  by_cases h0 : s.getCli a1 = NULL
  · have hnone : s.cliAt (s.getCli a1) = none := by
      cases hd : s.cliAt (s.getCli a1) with
      | none => rfl
      | some d => exact absurd h0 (ne_null_of_cliAt hI hd)
    rw [if_pos h0, hnone]
    exact reply_ok hI hc _
  obtain ⟨d, hd, -⟩ := getCli_ne_null hI h0
  rw [if_neg h0, deref_of_cliAt hI hd, hd]
  show (if d.nick ≠ c.nick then _ else if ar.length = 2 then _ else
    if 3 < ar.length then arg ar 2 >>= _ else _) = Except.ok (s.sendAll (if d.nick ≠ c.nick then _ else _))
  by_cases hn : d.nick ≠ c.nick
  · rw [if_pos hn, if_pos hn]
    exact reply_ok hI hc _
  rw [if_neg hn, if_neg hn]
  by_cases h2 : ar.length = 2
  · rw [if_pos h2, if_pos h2]
    exact reply_ok hI hc _
  rw [if_neg h2, if_neg h2]
  by_cases h3 : 3 < ar.length
  · obtain ⟨a2, ha2⟩ := exists_arg ar 2 (by omega)
    rw [if_pos h3, arg_ok ha2, argD_of_getElem? ha2]
    show (if a2 = str "+i" then _ else _) = _
    by_cases hi : a2 = str "+i"
    · rw [if_pos hi, if_pos ⟨h3, hi⟩]
      exact reply_ok hI hc _
    · rw [if_neg hi, if_neg fun h => hi h.2]
      rfl
  · rw [if_neg h3, if_neg fun h => h3 h.1]
    rfl

end FtIrc
