import FtIrc.Command

/-!
# Executing PART and KICK

Both test each item of a comma list for being a channel up to case, use the item itself as a key,
and announce the departure to `getCh(ar[1])`, that is to the channel named by the whole list.
`PartSafe` and `KickSafe` say exactly when this goes well.
-/

namespace FtIrc

open Std Outcome Server

variable {s₀ s s' : Server} {x y : Ptr} {ar : List Str} {c d : Cli} {k a1 text line t : Str}
  {ch : Ch} {items targets : List Str}

theorem Server.eraseCliFromCh_ok {nick chName : Str} (hn : s.getCli nick = y)
    (hget : s.getCh chName = some k) (hch : s.chs[k]? = some ch) :
    s.eraseCliFromCh nick chName = .ok (s.updCh k fun _ => ch.drop y) := by
  unfold eraseCliFromCh setCh
  rw [hget, derefCh_some hch, hn]
  rfl

namespace Mid

theorem nick_ne_nil (h : Mid s₀ x ar c s) (hx : IsReg s₀ x) : c.nick ≠ [] :=
  (Cli.registered_iff.mp ((isReg_iff h.author₀).mp hx)).2.1

theorem getCli_author (h : Mid s₀ x ar c s) (hx : IsReg s₀ x) (hcmd : ¬ CmdIs ar "NICK") :
    s.getCli c.nick = x := by
  obtain ⟨d, hd, hn⟩ := h.author_nick hcmd
  exact getCli_eq h.inv hd (hn ▸ h.nick_ne_nil hx) (by rw [hn])

/-- A departure, announced to the channel `k'` and made on the channel `k`. -/
theorem depart (h : Mid s₀ x ar c s) (hx : IsReg s₀ x) {k' nick : Str} {ch' : Ch}
    (hch' : s.chs[k']? = some ch') (hch : s.chs[k]? = some ch) (hn : s.getCli nick = y)
    (hy : y ∈ ch.clis) (hwhy : (PartCmd ar ∧ y = x) ∨ (CmdIs ar "KICK" ∧ Op s₀ x k))
    (hline : Tidy s₀ → TidyArgs ar → Line line) :
    (s.prepareRespAuthorIncluding (some k') line >>= fun s => s.eraseCliFromCh nick k) =
        .ok ((s.sendAll (bcast ch' line)).updCh k fun _ => ch.drop y) ∧
      Mid s₀ x ar c ((s.sendAll (bcast ch' line)).updCh k fun _ => ch.drop y) := by
  obtain ⟨heq, hmid⟩ := h.broadcast hx hch' hline
  have hch1 : (s.sendAll (bcast ch' line)).chs[k]? = some ch := by rw [chs_sendAll]; exact hch
  refine ⟨?_, hmid.updCh hx hch1 (.leave ch y hy hwhy)⟩
  rw [heq]
  exact eraseCliFromCh_ok (by rw [getCli_sendAll, hn])
    (by rw [getCh_sendAll]; exact getCh_self h.inv (mem_chs.mpr ⟨ch, hch⟩)) hch1

end Mid

/-! ## PART -/

/-- Every item that names a channel is spelled as its key, and if the author is on that channel,
the whole list names a channel. -/
def PartSafe (s : Server) (x : Ptr) (a1 : Str) (items : List Str) : Prop :=
  ∀ i ∈ items, s.getCh i ≠ none → i ∈ s.chs ∧ (On s x i → s.getCh a1 ≠ none)

theorem partSafe_cons {i : Str} : PartSafe s x a1 (i :: items) ↔
    (s.getCh i ≠ none → i ∈ s.chs ∧ (On s x i → s.getCh a1 ≠ none)) ∧
      PartSafe s x a1 items := by
  simp [PartSafe]

theorem partSafe_sendAll {mail : Mail} :
    PartSafe (s.sendAll mail) x a1 items ↔ PartSafe s x a1 items := by
  simp [PartSafe, On]

/-- When the whole list names a channel, only the spelling matters. -/
theorem partSafe_of_getCh (h : s.getCh a1 ≠ none) :
    PartSafe s x a1 items ↔ ∀ i ∈ items, s.getCh i ≠ none → i ∈ s.chs := by
  simp [PartSafe, h]

theorem partLoop_spec (hx : IsReg s₀ x) (hpart : PartCmd ar) (hnick : ¬ CmdIs ar "NICK")
    (hline : Tidy s₀ → TidyArgs ar → Line (str ":" ++ hostPrefix c ++ str " PART " ++ a1 ++ text)) :
    ∀ (items : List Str) (s : Server), (Tidy s₀ → TidyArgs ar → ∀ i ∈ items, CrlfFree i) →
    Mid s₀ x ar c s →
    Decides Fault.isNull (PartSafe s x a1 items) (Mid s₀ x ar c) (partLoop x c a1 text items s)
  | [], _, _, h => (done_ok h).decides fun i hi => absurd hi List.not_mem_nil
  | i :: items, s, hfree, h => by
    have hi : Tidy s₀ → TidyArgs ar → CrlfFree i := fun hT hA => hfree hT hA i (by simp)
    have hrest := fun s h => partLoop_spec hx hpart hnick hline items s
      (fun hT hA j hj => hfree hT hA j (by simp [hj])) h
    -- an item that is only replied to
    have hreply : ∀ m, (Tidy s₀ → TidyArgs ar → Line m) →
        (s.getCh i ≠ none → i ∈ s.chs ∧ (On s x i → s.getCh a1 ≠ none)) →
        Decides Fault.isNull (PartSafe s x a1 (i :: items)) (Mid s₀ x ar c)
          (s.prepareResp x m >>= partLoop x c a1 text items) := by
      intro m hm hsafe
      obtain ⟨heq, hmid⟩ := h.reply hm
      rw [heq]
      refine (hrest _ hmid).congr ?_
      rw [partSafe_cons, partSafe_sendAll, and_iff_right hsafe]
    unfold partLoop
    show Decides _ _ _ (if s.getCh i = none then s.prepareResp x _ >>= _ else
      s.getCliOnCh c.nick i >>= _)
    by_cases hget : s.getCh i = none
    · rw [if_pos hget]
      refine hreply _ (fun hT hA => ?_) fun hne => absurd hget hne
      simp (disch := decide) [hi hT hA]
    · rw [if_neg hget]
      by_cases hk : i ∈ s.chs
      · obtain ⟨ch, hch⟩ := mem_chs.mp hk
        rw [h.getCliOnCh_author hnick hch]
        by_cases hon : x ∈ ch.clis
        · have hOn : On s x i := ⟨ch, hch, hon⟩
          rw [if_pos hon]
          show Decides _ _ _ (if x = NULL then _ else
            s.prepareRespAuthorIncluding (s.getCh a1)
              (str ":" ++ hostPrefix c ++ str " PART " ++ a1 ++ text) >>= fun s1 =>
                s1.eraseCliFromCh c.nick i >>= partLoop x c a1 text items)
          rw [if_neg h.author_ne_null]
          cases hget1 : s.getCh a1 with
          | none =>
            refine Fails.decides (Fails.bind (fails_error (.inl rfl))) fun hall => ?_
            exact ((partSafe_cons.mp hall).1 hget).2 hOn hget1
          | some k1 =>
            obtain ⟨ch1, hch1⟩ := mem_chs.mp (getCh_some hget1).1
            obtain ⟨heq, hmid⟩ := h.depart hx hch1 hch (h.getCli_author hx hnick) hon
              (.inl ⟨hpart, rfl⟩) hline
            have hne : s.getCh a1 ≠ none := by rw [hget1]; simp
            rw [← bind_assoc, heq]
            refine (hrest _ hmid).congr ?_
            rw [partSafe_cons, partSafe_of_getCh hne, partSafe_of_getCh (by simpa using hne)]
            simp [hk, hne]
        · rw [if_neg hon]
          refine hreply _ (fun hT hA => ?_) fun _ => ⟨hk, fun ⟨ch', hch', hon'⟩ => ?_⟩
          · simp (disch := decide) [hi hT hA]
          · rw [hch] at hch'
            cases hch'
            exact absurd hon' hon
      · rw [getCliOnCh_misspelt hget hk]
        refine Fails.decides (Fails.bind (fails_error (.inr (.inl rfl)))) fun hall => ?_
        exact hk ((partSafe_cons.mp hall).1 hget).1

/-- What `PART` needs in order not to fail. -/
def PartOk (s : Server) (x : Ptr) (ar : List Str) : Prop :=
  IsReg s x → ∀ a1 ∈ ar[1]?, PartSafe s x a1 (splitArgToSubargs a1)

/-- `PART`, with the arguments `ar'` of the line itself or of the line `JOIN 0` stands for. -/
theorem execPart_spec (ar' : List Str) (h : Mid s₀ x ar c s₀) (hpart : PartCmd ar) (hnick : ¬ CmdIs ar "NICK")
    (hfree : Tidy s₀ → TidyArgs ar → TidyArgs ar') :
    Decides Fault.isNull (PartOk s₀ x ar') (Mid s₀ x ar c) (s₀.execPart x ar') := by
  unfold execPart
  rw [deref_of_cliAt h.inv h.author₀]
  show Decides _ _ _ (if c.registered = false then _ else if ar'.length < 2 then _ else _)
  split
  · rename_i hreg
    refine h.notRegistered.decides fun hx => ?_
    rw [(isReg_iff h.author₀).mp hx] at hreg
    cases hreg
  · rename_i hreg
    have hx : IsReg s₀ x := (isReg_iff h.author₀).mpr (by simpa using hreg)
    split
    · rename_i hlen
      refine (h.reply_done fun _ _ => by simp (disch := decide)).decides fun _ a ha => ?_
      have := (List.getElem?_eq_some_iff.mp ha).1
      omega
    · rename_i hlen
      obtain ⟨a1, ha1⟩ := exists_arg ar' 1 (by omega)
      have hpre : Tidy s₀ → CrlfFree (hostPrefix c) := fun hT => by
        obtain ⟨hn, hu, -, hh⟩ := h.author_tidy hT
        exact crlfFree_hostPrefix hn hu hh
      have hloop : ∀ text, (Tidy s₀ → TidyArgs ar →
          Line (str ":" ++ hostPrefix c ++ str " PART " ++ a1 ++ text)) →
          Decides Fault.isNull (PartOk s₀ x ar') (Mid s₀ x ar c)
            (partLoop x c a1 text (splitArgToSubargs a1) s₀) := by
        intro text hline
        refine (partLoop_spec hx hpart hnick hline _ s₀ (fun hT hA i hi => ?_) h).congr ?_
        · exact (tidyArgs_get (hfree hT hA) ha1).sub (splitArgToSubargs_part hi).2
        · simp only [PartOk, hx, ha1, Option.mem_def, Option.some.injEq, forall_eq', true_imp_iff]
      rw [arg_ok ha1]
      show Decides _ _ _ (if 2 < ar'.length then arg ar' 2 >>= _ else _)
      split
      · rename_i h2
        obtain ⟨a2, ha2⟩ := exists_arg ar' 2 h2
        rw [arg_ok ha2]
        refine hloop _ fun hT hA => ?_
        simp (disch := decide) [hpre hT, tidyArgs_get (hfree hT hA) ha1,
          tidyArgs_get (hfree hT hA) ha2]
      · refine hloop _ fun hT hA => ?_
        simp (disch := decide) [hpre hT, tidyArgs_get (hfree hT hA) ha1]

/-! ## KICK -/

/-- A member of the channel bears the nick. -/
def NamesMember (s : Server) (k t : Str) : Prop :=
  ∃ ch y d, s.chs[k]? = some ch ∧ y ∈ ch.clis ∧ s.cliAt y = some d ∧ toLower d.nick = toLower t

theorem namesMember_sendAll {mail : Mail} : NamesMember (s.sendAll mail) k t ↔ NamesMember s k t := by
  unfold NamesMember
  simp only [chs_sendAll, cliAt_sendAll, Option.map_eq_some_iff]
  constructor
  · rintro ⟨ch, y, _, hch, hy, ⟨d, hd, rfl⟩, hn⟩
    exact ⟨ch, y, d, hch, hy, hd, hn⟩
  · rintro ⟨ch, y, d, hch, hy, hd, hn⟩
    exact ⟨ch, y, _, hch, hy, ⟨d, hd, rfl⟩, hn⟩

/-- Every item that names a channel is spelled as its key, and if the author is an operator of it and
one of the targets is on it, the whole list names a channel. -/
def KickSafe (s : Server) (x : Ptr) (a1 : Str) (targets items : List Str) : Prop :=
  ∀ i ∈ items, s.getCh i ≠ none →
    i ∈ s.chs ∧ (Op s x i → s.getCh a1 = none → ∀ t ∈ targets, ¬ NamesMember s i t)

theorem kickSafe_cons {i : Str} : KickSafe s x a1 targets (i :: items) ↔
    (s.getCh i ≠ none →
      i ∈ s.chs ∧ (Op s x i → s.getCh a1 = none → ∀ t ∈ targets, ¬ NamesMember s i t)) ∧
      KickSafe s x a1 targets items := by
  simp [KickSafe]

/-- The condition on the remaining items is not affected by what is done for one of them. -/
theorem kickSafe_congr (hkeys : s'.chs.keys = s.chs.keys)
    (hmail : s.getCh a1 = none → ∃ mail, s' = s.sendAll mail) :
    KickSafe s' x a1 targets items ↔ KickSafe s x a1 targets items := by
  have hget : ∀ n, s'.getCh n = s.getCh n := fun n => by
    unfold getCh
    rw [hkeys]
  have hmem : ∀ k, k ∈ s'.chs ↔ k ∈ s.chs := fun k => by
    rw [← ExtTreeMap.mem_keys, hkeys, ExtTreeMap.mem_keys]
  unfold KickSafe
  refine forall₂_congr fun i _ => ?_
  rw [hget, hget, hmem]
  refine imp_congr_right fun _ => and_congr_right fun _ => ?_
  by_cases h1 : s.getCh a1 = none
  · obtain ⟨mail, rfl⟩ := hmail h1
    simp [Op, namesMember_sendAll]
  · simp [h1]

/-- `KICK` changes only channels of which the author was an operator when it began. -/
theorem Steps.kick_ch (hcmd : CmdIs ar "KICK") (h : Steps s₀ x ar s) (k : Str) :
    s.chs[k]? = s₀.chs[k]? ∨ Op s₀ x k := by
  have hother : ∀ l, str l ≠ str "KICK" → ¬ CmdIs ar l := fun l hl hc => hl (hc.unique hcmd)
  induction h with
  | refl => exact .inl rfl
  | tail _ heff ih =>
    rcases ih with ih | hop
    · cases heff with
      | cli _ _ _ _ _ => exact .inl ih
      | ch j ch ch' _ hch heff =>
        by_cases hkj : k = j
        · subst hkj
          refine .inr ?_
          cases heff with
          | join hc _ _ _ _ => exact absurd hc (hother _ (by decide))
          | leave y _ hwhy =>
            rcases hwhy with ⟨hc | ⟨hc, -⟩, -⟩ | ⟨-, hop⟩
            · exact absurd hc (hother _ (by decide))
            · exact absurd hc (hother _ (by decide))
            · exact hop
          | topic t hc _ _ => exact absurd hc (hother _ (by decide))
          | modes p i t l _ hop => exact hop
          | addAdm y a val _ hop _ _ _ _ _ => exact hop
          | delAdm y _ hop => exact hop
        · left
          rw [getElem?_chs_put hch, if_neg hkj]
          exact ih
      | newCh j _ hc _ _ _ _ => exact absurd hc (hother _ (by decide))
      | mark _ _ _ => exact .inl ih
    · exact .inr hop

theorem kickTargets_spec (a1 : Str) (hx : IsReg s₀ x) (hcmd : CmdIs ar "KICK")
    (hline : Tidy s₀ → TidyArgs ar → Line line) {i : Str} (hop : Op s₀ x i)
    (hi : TidyArgs ar → CrlfFree i) : ∀ (targets : List Str) (s : Server),
    (TidyArgs ar → ∀ t ∈ targets, CrlfFree t) → i ∈ s.chs → Mid s₀ x ar c s →
    Decides Fault.isNull (s.getCh a1 = none → ∀ t ∈ targets, ¬ NamesMember s i t)
      (fun s' => Mid s₀ x ar c s' ∧ s'.chs.keys = s.chs.keys ∧
        (s.getCh a1 = none → ∃ mail, s' = s.sendAll mail))
      (kickTargets x a1 line i targets s)
  | [], s, _, _, h =>
    (done_ok ⟨h, rfl, fun _ => ⟨[], rfl⟩⟩).decides fun _ t ht => absurd ht List.not_mem_nil
  | t :: targets, s, hfree, hk, h => by
    have ht : TidyArgs ar → CrlfFree t := fun hA => hfree hA t (by simp)
    have hrest := fun s hk h => kickTargets_spec a1 hx hcmd hline hop hi targets s
      (fun hA u hu => hfree hA u (by simp [hu])) hk h
    obtain ⟨ch, hch⟩ := mem_chs.mp hk
    obtain ⟨r, hr, hcase⟩ := getCliOnCh_spec (n := t) h.inv hch
    unfold kickTargets
    rw [hr]
    rcases hcase with ⟨rfl, hno⟩ | ⟨hr0, hrm, hrn, d, hd, hdn⟩
    · -- the target is not on the channel
      have hnot : ¬ NamesMember s i t := by
        rintro ⟨ch', y, d, hch', hy, hd, hn⟩
        rw [hch] at hch'
        cases hch'
        exact hno y hy d hd hn
      obtain ⟨heq, hmid⟩ := h.reply
        (m := str "441 " ++ t ++ str " " ++ i ++ str " :They aren't on that channel") fun _ hA => by
          simp (disch := decide) [ht hA, hi hA]
      show Decides _ _ _ (s.prepareResp x _ >>= _)
      rw [heq]
      refine ((hrest _ (by simpa using hk) hmid).mono fun s' ⟨hm, hkeys, hmail⟩ => ?_).congr ?_
      · simp [namesMember_sendAll, hnot]
      · refine ⟨hm, by rw [hkeys, chs_sendAll], fun h1 => ?_⟩
        obtain ⟨mail, rfl⟩ := hmail (by simpa using h1)
        exact ⟨_ ++ mail, by rw [sendAll_append]⟩
    · show Decides _ _ _ (if r = NULL then _ else
        s.prepareRespAuthorIncluding (s.getCh a1) line >>= fun s1 =>
          s1.eraseCliFromCh t i >>= kickTargets x a1 line i targets)
      rw [if_neg hr0]
      cases hget1 : s.getCh a1 with
      | none =>
        refine Fails.decides (Fails.bind (fails_error (.inl rfl))) fun hall => ?_
        exact hall rfl t (by simp) ⟨ch, r, d, hch, hrm, hd, hdn⟩
      | some k1 =>
        obtain ⟨ch1, hch1⟩ := mem_chs.mp (getCh_some hget1).1
        obtain ⟨heq, hmid⟩ := h.depart hx hch1 hch hrn hrm (.inr ⟨hcmd, hop⟩) hline
        rw [← bind_assoc, heq]
        refine ((hrest _ (by simpa using hk) hmid).mono fun s' ⟨hm, hkeys, _⟩ => ?_).congr ?_
        · simp [hget1]
        · exact ⟨hm, by rw [hkeys, keys_chs_updCh, chs_sendAll], fun hn => by cases hn⟩

theorem kickLoop_spec (hx : IsReg s₀ x) (hcmd : CmdIs ar "KICK")
    (hline : Tidy s₀ → TidyArgs ar → Line line) (htargets : TidyArgs ar → ∀ t ∈ targets, CrlfFree t) :
    ∀ (items : List Str) (s : Server), (TidyArgs ar → ∀ i ∈ items, CrlfFree i) →
    Mid s₀ x ar c s →
    Decides Fault.isNull (KickSafe s x a1 targets items) (Mid s₀ x ar c)
      (kickLoop x c a1 line targets items s)
  | [], _, _, h => (done_ok h).decides fun i hi => absurd hi List.not_mem_nil
  | i :: items, s, hfree, h => by
    have hnick : ¬ CmdIs ar "NICK" := fun hn => absurd (hn.unique hcmd) (by decide)
    have hi : TidyArgs ar → CrlfFree i := fun hA => hfree hA i (by simp)
    have hrest := fun s h => kickLoop_spec hx hcmd hline htargets items s
      (fun hA j hj => hfree hA j (by simp [hj])) h
    -- a channel that is only replied to
    have hreply : ∀ m, (Tidy s₀ → TidyArgs ar → Line m) →
        (s.getCh i ≠ none →
          i ∈ s.chs ∧ (Op s x i → s.getCh a1 = none → ∀ t ∈ targets, ¬ NamesMember s i t)) →
        Decides Fault.isNull (KickSafe s x a1 targets (i :: items)) (Mid s₀ x ar c)
          (s.prepareResp x m >>= kickLoop x c a1 line targets items) := by
      intro m hm hsafe
      obtain ⟨heq, hmid⟩ := h.reply hm
      rw [heq]
      refine (hrest _ hmid).congr ?_
      rw [kickSafe_cons, and_iff_right hsafe,
        kickSafe_congr (s := s) (by rw [chs_sendAll]) fun _ => ⟨_, rfl⟩]
    unfold kickLoop
    show Decides _ _ _ (if s.getCh i = none then s.prepareResp x _ >>= _ else
      s.getCliOnCh c.nick i >>= _)
    by_cases hget : s.getCh i = none
    · rw [if_pos hget]
      refine hreply _ (fun hT hA => ?_) fun hne => absurd hget hne
      simp (disch := decide) [hi hA]
    · rw [if_neg hget]
      by_cases hk : i ∈ s.chs
      · obtain ⟨ch, hch⟩ := mem_chs.mp hk
        have hOp : Op s x i ↔ x ∈ ch.adms := by
          constructor
          · rintro ⟨ch', hch', hx'⟩
            rw [hch] at hch'
            cases hch'
            exact hx'
          · exact fun hx' => ⟨ch, hch, hx'⟩
        rw [h.getCliOnCh_author hnick hch]
        by_cases hon : x ∈ ch.clis
        · rw [if_pos hon]
          show Decides _ _ _ (if x = NULL then _ else s.getAdmOnCh c.nick i >>= _)
          rw [if_neg h.author_ne_null, h.getAdmOnCh_author hnick hch]
          by_cases hadm : x ∈ ch.adms
          · rw [if_pos hadm]
            show Decides _ _ _ (if x = NULL then _ else
              kickTargets x a1 line i targets s >>= kickLoop x c a1 line targets items)
            rw [if_neg h.author_ne_null]
            have hop₀ : Op s₀ x i := by
              rcases h.steps.kick_ch hcmd i with hsame | hop
              · exact ⟨ch, hsame ▸ hch, hadm⟩
              · exact hop
            have htarget := kickTargets_spec a1 hx hcmd hline hop₀ hi targets s htargets hk h
            refine (htarget.bind fun s' _ ⟨hmid, hkeys, hmail⟩ =>
              (hrest s' hmid).congr (kickSafe_congr hkeys hmail).symm).congr ?_
            rw [kickSafe_cons]
            simp [hget, hk, hOp, hadm]
          · rw [if_neg hadm]
            refine hreply _ (fun _ hA => ?_) fun _ => ⟨hk, fun hop => absurd (hOp.mp hop) hadm⟩
            simp (disch := decide) [hi hA]
        · rw [if_neg hon]
          refine hreply _ (fun _ hA => ?_) fun _ => ⟨hk, fun hop => ?_⟩
          · simp (disch := decide) [hi hA]
          · exact absurd (h.inv.adm i ch hch x (hOp.mp hop)) hon
      · rw [getCliOnCh_misspelt hget hk]
        refine Fails.decides (Fails.bind (fails_error (.inr (.inl rfl)))) fun hall => ?_
        exact hk ((kickSafe_cons.mp hall).1 hget).1

/-- What `KICK` needs in order not to fail. -/
def KickOk (s : Server) (x : Ptr) (ar : List Str) : Prop :=
  IsReg s x → ∀ a1 ∈ ar[1]?, ∀ a2 ∈ ar[2]?,
    KickSafe s x a1 (splitArgToSubargs a2) (splitArgToSubargs a1)

theorem execKick_spec (h : Mid s₀ x ar c s₀) (hcmd : CmdIs ar "KICK") :
    Decides Fault.isNull (KickOk s₀ x ar) (Mid s₀ x ar c) (s₀.execKick x ar) := by
  unfold execKick
  rw [deref_of_cliAt h.inv h.author₀]
  show Decides _ _ _ (if c.registered = false then _ else if ar.length < 3 then _ else _)
  split
  · rename_i hreg
    refine h.notRegistered.decides fun hx => ?_
    rw [(isReg_iff h.author₀).mp hx] at hreg
    cases hreg
  · rename_i hreg
    have hx : IsReg s₀ x := (isReg_iff h.author₀).mpr (by simpa using hreg)
    split
    · rename_i hlen
      refine (h.reply_done fun _ _ => by simp (disch := decide)).decides fun _ a _ b hb => ?_
      have := (List.getElem?_eq_some_iff.mp hb).1
      omega
    · rename_i hlen
      obtain ⟨a1, ha1⟩ := exists_arg ar 1 (by omega)
      obtain ⟨a2, ha2⟩ := exists_arg ar 2 (by omega)
      have hpre : Tidy s₀ → CrlfFree (hostPrefix c) := fun hT => by
        obtain ⟨hn, hu, -, hh⟩ := h.author_tidy hT
        exact crlfFree_hostPrefix hn hu hh
      have hloop : ∀ text, (TidyArgs ar → text = [] ∨ ∃ a3, text = str " :" ++ a3 ∧ CrlfFree a3) →
          Decides Fault.isNull (KickOk s₀ x ar) (Mid s₀ x ar c)
            (kickLoop x c a1 (str ":" ++ hostPrefix c ++ str " KICK " ++ a1 ++ str " " ++ a2 ++ text)
              (splitArgToSubargs a2) (splitArgToSubargs a1) s₀) := by
        intro text htext
        refine (kickLoop_spec hx hcmd (fun hT hA => ?_) (fun hA t ht => subarg_free hA ha2 ht) _ s₀
          (fun hA i hi => subarg_free hA ha1 hi) h).congr ?_
        · rcases htext hA with rfl | ⟨a3, rfl, h3⟩
          · simp (disch := decide) [hpre hT, tidyArgs_get hA ha1, tidyArgs_get hA ha2]
          · simp (disch := decide) [hpre hT, tidyArgs_get hA ha1, tidyArgs_get hA ha2, h3]
        · simp only [KickOk, hx, ha1, ha2, Option.mem_def, Option.some.injEq, forall_eq',
            true_imp_iff]
      rw [arg_ok ha1, arg_ok ha2]
      show Decides _ _ _ (if 3 < ar.length then arg ar 3 >>= _ else _)
      split
      · rename_i h3
        obtain ⟨a3, ha3⟩ := exists_arg ar 3 h3
        rw [arg_ok ha3]
        exact hloop _ fun hA => .inr ⟨a3, rfl, tidyArgs_get hA ha3⟩
      · exact hloop _ fun _ => .inl rfl

end FtIrc
