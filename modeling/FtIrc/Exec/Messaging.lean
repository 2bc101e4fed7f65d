import FtIrc.Command

/-!
# Executing PRIVMSG, NOTICE and QUIT

`PRIVMSG` is the first handler that can fail: it tests whether the lower-cased target is a key and
then uses the target itself as a key (`PrivmsgSafe`).  When it does not fail, it delivers the lines
of `privmsgMail`, target by target.
-/

namespace FtIrc.Server

open Outcome

variable {s₀ s : Server} {x : Ptr} {ar : List Str} {c d : Cli} {m a1 a2 t : Str} {mail : Mail}

/-! ## PRIVMSG -/

/-- The line `PRIVMSG` relays. -/
def privmsgLine (c : Cli) (a1 a2 : Str) : Str :=
  str ":" ++ localPrefix c ++ str " PRIVMSG " ++ a1 ++ str " :" ++ a2

/-- What `PRIVMSG` delivers for one target. -/
def privmsgMail (s : Server) (x : Ptr) (c : Cli) (a1 a2 toName : Str) : Mail :=
  if toName.head? = some HASH then
    if toLower toName ∉ s.chs then
      [(x, str "401 " ++ toName ++ str " :No such nick/channel " ++ toName)]
    else
      match s.chs[toName]? with
      | some ch =>
        if x ∈ ch.clis then bcastOthers ch x (privmsgLine c a1 a2)
        else
          [(x, str "404 :" ++ localPrefix c ++ str " " ++ toName ++ str " :Cannot send to channel")]
      | none => []
  else if s.getCli toName = NULL then
    [(x, str "401 " ++ toName ++ str " :No such nick/channel " ++ toName)]
  else [(s.getCli toName, privmsgLine c a1 a2)]

/-- Every channel target whose lower-cased form is a key is spelled as its key. -/
def PrivmsgSafe (s : Server) (tos : List Str) : Prop :=
  ∀ t ∈ tos, t.head? = some HASH → toLower t ∈ s.chs → t ∈ s.chs

theorem privmsgSafe_cons {tos : List Str} : PrivmsgSafe s (t :: tos) ↔
    (t.head? = some HASH → toLower t ∈ s.chs → t ∈ s.chs) ∧ PrivmsgSafe s tos := by
  simp [PrivmsgSafe]

/-- One target: the condition, and the lines it is delivered. -/
theorem privmsgLoop_cons (hx : IsReg s₀ x) (hcmd : ¬ CmdIs ar "NICK")
    (hfree : TidyArgs ar → CrlfFree a1 ∧ CrlfFree a2 ∧ CrlfFree t) (ht : t ≠ [])
    (h : Mid s₀ x ar c (s₀.sendAll mail)) (tos : List Str) :
    ((t.head? = some HASH → toLower t ∈ s₀.chs → t ∈ s₀.chs) ∧
      (privmsgLoop x c a1 a2 (t :: tos) (s₀.sendAll mail) =
        privmsgLoop x c a1 a2 tos (s₀.sendAll (mail ++ privmsgMail s₀ x c a1 a2 t))) ∧
      Mid s₀ x ar c (s₀.sendAll (mail ++ privmsgMail s₀ x c a1 a2 t))) ∨
    (¬ (t.head? = some HASH → toLower t ∈ s₀.chs → t ∈ s₀.chs) ∧
      Fails Fault.isNull (privmsgLoop x c a1 a2 (t :: tos) (s₀.sendAll mail))) := by
  obtain ⟨b, hb, hhead⟩ := first_ok ht
  have hline : Tidy s₀ → TidyArgs ar → Line (privmsgLine c a1 a2) := fun hT hA => by
    obtain ⟨hn, hu, -, -⟩ := h.author_tidy hT
    obtain ⟨h1, h2, -⟩ := hfree hA
    unfold privmsgLine
    simp (disch := decide) [h1, h2, crlfFree_localPrefix hn hu]
  obtain ⟨h401, m401⟩ := h.reply
    (m := str "401 " ++ t ++ str " :No such nick/channel " ++ t) fun _ hA => by
      simp (disch := decide) [(hfree hA).2.2]
  obtain ⟨h404, m404⟩ := h.reply
    (m := str "404 :" ++ localPrefix c ++ str " " ++ t ++ str " :Cannot send to channel")
    fun hT hA => by
      obtain ⟨hn, hu, -, -⟩ := h.author_tidy hT
      simp (disch := decide) [(hfree hA).2.2, crlfFree_localPrefix hn hu]
  rw [← sendAll_append] at h401 m401 h404 m404
  rw [privmsgLoop, hb, hhead]
  unfold privmsgMail
  rw [hhead]
  by_cases hH : b = HASH
  · rw [if_pos (congrArg some hH)]
    by_cases hlow : toLower t ∈ s₀.chs
    · rw [if_neg (not_not.mpr hlow)]
      cases hch : s₀.chs[t]? with
      | none =>
        have hk : t ∉ s₀.chs := fun hk => by
          obtain ⟨ch, hch'⟩ := mem_chs.mp hk
          rw [hch] at hch'
          cases hch'
        have hne : s₀.getCh t ≠ none := fun h0 =>
          getCh_none_iff.mp h0 (toLower t) hlow (toLower_idem t)
        refine .inr ⟨fun hall => hk (hall (congrArg some hH) hlow), ?_⟩
        show Fails _ (if b = HASH then if toLower t ∉ (s₀.sendAll mail).chs then _ else
          (s₀.sendAll mail).getCliOnCh c.nick t >>= _ else _)
        rw [if_pos hH, chs_sendAll, if_neg (not_not.mpr hlow), getCliOnCh_sendAll,
          getCliOnCh_misspelt hne hk]
        exact Fails.bind (fails_error (.inr (.inl rfl)))
      | some ch =>
        have hk : t ∈ s₀.chs := mem_chs.mpr ⟨ch, hch⟩
        refine .inl ⟨fun _ _ => hk, ?_⟩
        have hch' : (s₀.sendAll mail).chs[t]? = some ch := by rw [chs_sendAll]; exact hch
        have hget : (s₀.sendAll mail).getCh t = some t := by
          rw [getCh_sendAll]; exact getCh_self h.inv₀ hk
        show (if b = HASH then if toLower t ∉ (s₀.sendAll mail).chs then _ else
          (s₀.sendAll mail).getCliOnCh c.nick t >>= _ else _) = _ ∧ _
        rw [if_pos hH, chs_sendAll, if_neg (not_not.mpr hlow), h.getCliOnCh_author hcmd hch']
        show _ = privmsgLoop x c a1 a2 tos (s₀.sendAll (mail ++ if x ∈ ch.clis then _ else _)) ∧
          Mid s₀ x ar c (s₀.sendAll (mail ++ if x ∈ ch.clis then _ else _))
        by_cases hon : x ∈ ch.clis
        · obtain ⟨heq, hmid⟩ := h.broadcastOthers hx hch' hline
          rw [if_pos hon, if_pos hon, sendAll_append]
          refine ⟨?_, hmid⟩
          show (if x = NULL then _ else
            (s₀.sendAll mail).prepareRespExceptAuthor x ((s₀.sendAll mail).getCh t)
              (privmsgLine c a1 a2) >>= _) = _
          rw [if_neg h.author_ne_null, hget, heq]
          rfl
        · rw [if_neg hon, if_neg hon]
          refine ⟨?_, m404⟩
          show (s₀.sendAll mail).prepareResp x _ >>= _ = _
          rw [h404]
          rfl
    · rw [if_pos hlow]
      refine .inl ⟨fun _ hl => absurd hl hlow, ?_, m401⟩
      show (if b = HASH then if toLower t ∉ (s₀.sendAll mail).chs then
        (s₀.sendAll mail).prepareResp x _ >>= _ else _ else _) = _
      rw [if_pos hH, chs_sendAll, if_pos hlow, h401]
      rfl
  · rw [if_neg (fun he => hH (Option.some.inj he))]
    refine .inl ⟨fun he => absurd (Option.some.inj he) hH, ?_⟩
    show (if b = HASH then _ else if (s₀.sendAll mail).getCli t = NULL then
      (s₀.sendAll mail).prepareResp x _ >>= _ else
      (s₀.sendAll mail).prepareResp ((s₀.sendAll mail).getCli t) (privmsgLine c a1 a2) >>= _) = _ ∧ _
    rw [if_neg hH, getCli_sendAll]
    by_cases hto : s₀.getCli t = NULL
    · rw [if_pos hto, if_pos hto]
      exact ⟨by rw [h401]; rfl, m401⟩
    · rw [if_neg hto, if_neg hto, sendAll_append]
      have hto' : (s₀.sendAll mail).getCli t ≠ NULL := by rw [getCli_sendAll]; exact hto
      obtain ⟨d, hd, -⟩ := getCli_ne_null h.inv hto'
      rw [getCli_sendAll] at hd
      obtain ⟨heq, hmid⟩ := h.relay hx hd hline
      exact ⟨by rw [heq]; rfl, hmid⟩

theorem privmsgLoop_spec (hx : IsReg s₀ x) (hcmd : ¬ CmdIs ar "NICK")
    (hfree : TidyArgs ar → CrlfFree a1 ∧ CrlfFree a2) : ∀ (tos : List Str) (mail : Mail),
    (∀ t ∈ tos, t ≠ [] ∧ (TidyArgs ar → CrlfFree t)) → Mid s₀ x ar c (s₀.sendAll mail) →
    Decides Fault.isNull (PrivmsgSafe s₀ tos)
      (fun s => s = s₀.sendAll (mail ++ tos.flatMap (privmsgMail s₀ x c a1 a2)) ∧
        Mid s₀ x ar c s)
      (privmsgLoop x c a1 a2 tos (s₀.sendAll mail))
  | [], mail, _, h => by
    refine (done_ok ⟨?_, h⟩).decides fun t ht => absurd ht List.not_mem_nil
    rw [List.flatMap_nil, List.append_nil]
  | t :: tos, mail, ht, h => by
    obtain ⟨hne, hft⟩ := ht t (by simp)
    have hrest := fun mail => privmsgLoop_spec hx hcmd hfree tos mail fun t h => ht t (by simp [h])
    rcases privmsgLoop_cons hx hcmd (fun hA => ⟨(hfree hA).1, (hfree hA).2, hft hA⟩) hne h tos with
      ⟨hsafe, heq, hmid⟩ | ⟨hun, hfail⟩
    · rw [heq, List.flatMap_cons, ← List.append_assoc]
      exact (hrest _ hmid).congr (privmsgSafe_cons.trans (and_iff_right hsafe))
    · exact hfail.decides fun hall => hun (privmsgSafe_cons.mp hall).1

/-- What `PRIVMSG` needs in order not to fail. -/
def PrivmsgOk (s : Server) (x : Ptr) (ar : List Str) : Prop :=
  IsReg s x → ∀ a1 ∈ ar[1]?, 2 < ar.length → tooManyTargets (splitArgToSubargs a1) = false →
    PrivmsgSafe s (splitArgToSubargs a1)

/-- What a registered client does with a list and a text: it is refused, or it is the loop. -/
theorem execPrivmsg_eq (hI : Inv s) (hc : s.cliAt x = some c) (hreg : c.registered = true)
    (ha1 : ar[1]? = some a1) (ha2 : ar[2]? = some a2) :
    s.execPrivmsg x ar = if tooManyTargets (splitArgToSubargs a1) = true then
        s.prepareResp x (str "407 " ++ a1 ++ str " not valid recipients")
      else privmsgLoop x c a1 a2 (splitArgToSubargs a1) s := by
  have hlt := (List.getElem?_eq_some_iff.mp ha2).1
  unfold execPrivmsg
  rw [deref_of_cliAt hI hc]
  show (if c.registered = false then _ else if ar.length = 1 then _ else if ar.length = 2 then _ else
    arg ar 1 >>= _) = _
  rw [if_neg (by simp [hreg]), if_neg (by omega), if_neg (by omega), arg_ok ha1]
  show (if tooManyTargets (splitArgToSubargs a1) = true then _ else arg ar 2 >>= _) = _
  rw [arg_ok ha2]
  rfl

theorem execPrivmsg_spec (h : Mid s₀ x ar c s₀) (hcmd : CmdIs ar "PRIVMSG") :
    Decides Fault.isNull (PrivmsgOk s₀ x ar) (Mid s₀ x ar c) (s₀.execPrivmsg x ar) := by
  have hnick : ¬ CmdIs ar "NICK" := fun hn => absurd (hn.unique hcmd) (by decide)
  by_cases hlen : 2 < ar.length ∧ c.registered = true
  · obtain ⟨hlen, hreg⟩ := hlen
    have hx : IsReg s₀ x := (isReg_iff h.author₀).mpr hreg
    obtain ⟨a1, ha1⟩ := exists_arg ar 1 (by omega)
    obtain ⟨a2, ha2⟩ := exists_arg ar 2 (by omega)
    rw [execPrivmsg_eq h.inv h.author₀ hreg ha1 ha2]
    split
    · rename_i hmany
      refine (h.reply_done fun _ hA => ?_).decides fun _ a ha _ hfew => ?_
      · simp (disch := decide) [tidyArgs_get hA ha1]
      · rw [ha1] at ha
        cases ha
        rw [hmany] at hfew
        cases hfew
    · rename_i hfew
      have hloop := privmsgLoop_spec (c := c) hx hnick
        (fun hA => ⟨tidyArgs_get hA ha1, tidyArgs_get hA ha2⟩) (splitArgToSubargs a1) []
        (fun t ht => ⟨(splitArgToSubargs_part ht).1, fun hA => subarg_free hA ha1 ht⟩) h
      refine (hloop.mono fun s hs => hs.2).congr ⟨fun hok => ?_, fun hs _ a ha _ _ => ?_⟩
      · exact hok hx a1 ha1 (by omega) (by simpa using hfew)
      · rw [ha1] at ha
        cases ha
        exact hs
  · -- nothing is looked up
    have hok : PrivmsgOk s₀ x ar := fun hx _ _ hl =>
      absurd ⟨hl, (isReg_iff h.author₀).mp hx⟩ hlen
    have hpos : 0 < ar.length := by
      refine List.length_pos_of_ne_nil ?_
      rintro rfl
      cases hcmd
    refine Done.decides ?_ hok
    unfold execPrivmsg
    rw [deref_of_cliAt h.inv h.author₀]
    show Done _ (if c.registered = false then _ else if ar.length = 1 then arg ar 0 >>= _ else
      if ar.length = 2 then _ else _)
    split
    · exact h.notRegistered
    · rename_i hreg
      have hfew : ¬ 2 < ar.length := fun hl => hlen ⟨hl, by simpa using hreg⟩
      split
      · obtain ⟨a0, ha0⟩ := exists_arg ar 0 hpos
        rw [arg_ok ha0]
        exact h.reply_done fun _ hA => by simp (disch := decide) [tidyArgs_get hA ha0]
      · rw [if_pos (by omega)]
        exact h.reply_done fun _ _ => by simp (disch := decide)

/-! ## NOTICE -/

theorem noticeLoop_done (hx : IsReg s₀ x) (hfree : TidyArgs ar → CrlfFree a1 ∧ CrlfFree a2) :
    ∀ (tos : List Str) (s : Server), (∀ t ∈ tos, t ≠ []) → Mid s₀ x ar c s →
    Done (Mid s₀ x ar c) (noticeLoop x c a1 a2 tos s)
  | [], _, _, h => done_ok h
  | t :: tos, s, ht, h => by
    obtain ⟨b, hb, -⟩ := first_ok (ht t (by simp))
    have hrest := fun s h => noticeLoop_done hx hfree tos s (fun t h => ht t (by simp [h])) h
    have hline : Tidy s₀ → TidyArgs ar → Line (noticeLine c a1 a2) := fun hT hA => by
      obtain ⟨hn, hu, -, -⟩ := h.author_tidy hT
      obtain ⟨h1, h2⟩ := hfree hA
      unfold noticeLine
      simp (disch := decide) [h1, h2, crlfFree_localPrefix hn hu]
    unfold noticeLoop
    rw [hb]
    show Done _ (if b = HASH ∧ s.getCh t ≠ none then _ >>= _ else
      if b ≠ HASH ∧ s.getCli t ≠ NULL then _ >>= _ else _)
    split
    · rename_i hc
      cases hget : s.getCh t with
      | none => exact absurd hget hc.2
      | some k =>
        obtain ⟨ch, hch⟩ := mem_chs.mp (getCh_some hget).1
        obtain ⟨heq, hmid⟩ := h.broadcastOthers hx hch hline
        rw [heq]
        exact hrest _ hmid
    · split
      · rename_i hc
        obtain ⟨d, hd, -⟩ := getCli_ne_null h.inv hc.2
        obtain ⟨heq, hmid⟩ := h.relay hx hd hline
        rw [heq]
        exact hrest _ hmid
      · exact hrest s h

theorem execNotice_done (h : Mid s₀ x ar c s₀) : Done (Mid s₀ x ar c) (s₀.execNotice x ar) := by
  unfold execNotice
  rw [deref_of_cliAt h.inv h.author₀]
  show Done _ (if c.registered = false ∨ ar.length < 3 then _ else _)
  split
  · exact done_ok h
  · rename_i hc
    push Not at hc
    obtain ⟨a1, ha1⟩ := exists_arg ar 1 (by omega)
    obtain ⟨a2, ha2⟩ := exists_arg ar 2 (by omega)
    rw [arg_ok ha1, arg_ok ha2]
    exact noticeLoop_done ((isReg_iff h.author₀).mpr (by simpa using hc.1))
      (fun hA => ⟨tidyArgs_get hA ha1, tidyArgs_get hA ha2⟩) _ s₀
      (fun t ht => (splitArgToSubargs_part ht).1) h

/-! ## QUIT -/

theorem execQuit_done (h : Mid s₀ x ar c s₀) (hcmd : CmdIs ar "QUIT") :
    Done (Mid s₀ x ar c) (s₀.execQuit x ar) := by
  have hend : ∀ text : Str, (TidyArgs ar → CrlfFree text) →
      Done (Mid s₀ x ar c)
        (quitLoop text s₀.clients s₀ >>= fun s => .ok (s.markToErase c.fd)) := by
    intro text hfree
    have hmid : Mid s₀ x ar c
        (s₀.sendAll (s₀.clients.map fun d => (d.addr, quitLine d text))) := by
      refine h.sendAll (fun e he => ?_) fun e he => ?_ <;>
        obtain ⟨d, hd, rfl⟩ := List.mem_map.mp he
      · exact ⟨d, cliAt_of_mem h.inv hd⟩
      · refine ⟨.inr (.inr ⟨hcmd, d, hd, rfl, text, rfl⟩), fun hT hA => ?_⟩
        obtain ⟨hn, hu, -, hh⟩ := hT.cli d hd
        unfold quitLine
        simp (disch := decide) [crlfFree_hostPrefix hn hu hh, hfree hA]
    rw [quitLoop_ok text s₀.clients s₀ fun d hd =>
      ⟨d, deref_of_cliAt h.inv (cliAt_of_mem h.inv hd)⟩]
    obtain ⟨a, ha, hl⟩ := hmid.author
    rw [← hl.fd]
    exact done_ok (hmid.effect (.mark a ha (.inl hcmd)))
  unfold execQuit
  rw [deref_of_cliAt h.inv h.author₀]
  show Done _ (if ar.length = 2 then arg ar 1 >>= _ else _)
  split
  · obtain ⟨a, ha⟩ := exists_arg ar 1 (by omega)
    rw [arg_ok ha]
    exact hend a fun hA => tidyArgs_get hA ha
  · exact hend [] fun _ => crlfFree_nil

end FtIrc.Server
