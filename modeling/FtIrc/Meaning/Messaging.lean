import FtIrc.Meaning.Basic

/-!
# What PRIVMSG, NOTICE, QUIT and WHOIS come to

All four only prepare lines; `QUIT` marks its author as well.
-/

namespace FtIrc

open Std Outcome Server

variable {s s' : Server} {x y p : Ptr} {ar : List Str} {c d : Cli} {k n name m a1 a2 text : Str}
  {ch : Ch} {mail : Mail}

/-! ## PRIVMSG -/

/-- The lines of a `PRIVMSG` to a list. -/
def privmsgMails (s : Server) (x : Ptr) (c : Cli) (a1 a2 : Str) : Mail :=
  (splitArgToSubargs a1).flatMap (privmsgMail s x c a1 a2)

theorem execPrivmsg_run {a : Str} (hI : Inv s) (hc : s.cliAt x = some c)
    (hreg : c.registered = true) (hcmd : CmdIs ar "PRIVMSG") (ha : ar[1]? = some a)
    (ha2 : ar[2]? = some a2) (hrun : tooManyTargets (splitArgToSubargs a) = false)
    (hsafe : PrivmsgSafe s (splitArgToSubargs a)) :
    s.execPrivmsg x ar = .ok (s.sendAll (privmsgMails s x c a a2)) := by
  have hnick : ¬ CmdIs ar "NICK" := fun hn => absurd (hn.unique hcmd) (by decide)
  have hloop := privmsgLoop_spec (c := c) ((isReg_iff hc).mpr hreg) hnick
    (fun hA => ⟨tidyArgs_get hA ha, tidyArgs_get hA ha2⟩) (splitArgToSubargs a) []
    (fun t ht => ⟨(splitArgToSubargs_part ht).1, fun hA => subarg_free hA ha ht⟩) (.refl hI hc)
  obtain ⟨t, ht, heq, -⟩ := hloop.done_iff.mpr hsafe
  rw [execPrivmsg_eq hI hc hreg ha ha2, if_neg (by simp [hrun])]
  rw [List.nil_append] at heq
  exact ht.trans (congrArg Except.ok heq)

/-- A target of `PRIVMSG` delivers to the client at `y`. -/
def Reaches (s : Server) (x : Ptr) (target : Str) (y : Ptr) : Prop :=
  if target.head? = some HASH then
    toLower target ∈ s.chs ∧ On s x target ∧ On s y target ∧ y ≠ x
  else s.getCli target = y ∧ y ≠ NULL

/-- Another client gets a line exactly if the target reaches it. -/
theorem reaches_iff (c : Cli) (a1 a2 : Str) {target : Str} (hy : y ≠ x) :
    (∃ m, (y, m) ∈ privmsgMail s x c a1 a2 target) ↔ Reaches s x target y := by
  unfold privmsgMail Reaches
  by_cases hH : target.head? = some HASH
  · rw [if_pos hH, if_pos hH]
    by_cases hlow : toLower target ∈ s.chs
    · rw [if_neg (not_not.mpr hlow)]
      cases hch : s.chs[target]? with
      | none => simp [On, hch]
      | some ch =>
        by_cases hon : x ∈ ch.clis
        · simp [On, hch, hon, hlow, hy, mem_bcastOthers]
        · simp [On, hch, hon, hy]
    · simp [hlow, hy]
  · rw [if_neg hH, if_neg hH]
    by_cases hto : s.getCli target = NULL
    · rw [if_pos hto]
      constructor
      · rintro ⟨m, hm⟩
        simp [hy] at hm
      · rintro ⟨rfl, hne⟩
        exact absurd hto hne
    · rw [if_neg hto]
      constructor
      · rintro ⟨m, hm⟩
        simp only [List.mem_singleton, Prod.mk.injEq] at hm
        exact ⟨hm.1.symm, hm.1 ▸ hto⟩
      · rintro ⟨rfl, -⟩
        exact ⟨_, List.mem_singleton.mpr rfl⟩

/-! ## NOTICE -/

/-- What `NOTICE` delivers for one target. -/
def noticeMail (s : Server) (x : Ptr) (c : Cli) (a1 a2 toName : Str) : Mail :=
  if toName.head? = some HASH then
    match (s.getCh toName).bind fun k => s.chs[k]? with
    | some ch => bcastOthers ch x (noticeLine c a1 a2)
    | none => []
  else if s.getCli toName = NULL then []
  else [(s.getCli toName, noticeLine c a1 a2)]

/-- The lines of a `NOTICE` to a list. -/
def noticeMails (s : Server) (x : Ptr) (c : Cli) (a1 a2 : Str) : Mail :=
  (splitArgToSubargs a1).flatMap (noticeMail s x c a1 a2)

theorem noticeLoop_run (hI : Inv s) (hc : s.cliAt x = some c) : ∀ (tos : List Str) (mail : Mail),
    (∀ t ∈ tos, t ≠ []) → noticeLoop x c a1 a2 tos (s.sendAll mail) =
      .ok (s.sendAll (mail ++ tos.flatMap (noticeMail s x c a1 a2)))
  | [], mail, _ => by rw [List.flatMap_nil, List.append_nil]; rfl
  | t :: tos, mail, ht => by
    obtain ⟨b, hb, hhead⟩ := first_ok (ht t (by simp))
    have hrest := fun mail => noticeLoop_run hI hc tos mail fun u hu => ht u (by simp [hu])
    unfold noticeLoop
    rw [hb]
    show (if b = HASH ∧ (s.sendAll mail).getCh t ≠ none then _ >>= _ else
      if b ≠ HASH ∧ (s.sendAll mail).getCli t ≠ NULL then _ >>= _ else _) = _
    rw [getCh_sendAll, getCli_sendAll, List.flatMap_cons, ← List.append_assoc, ← hrest]
    unfold noticeMail
    rw [hhead]
    by_cases hb : b = HASH
    · rw [if_pos (congrArg some hb)]
      cases hget : s.getCh t with
      | none =>
        rw [if_neg (by simp), if_neg (by simp [hb])]
        show noticeLoop x c a1 a2 tos (s.sendAll mail) =
          noticeLoop x c a1 a2 tos (s.sendAll (mail ++ []))
        rw [List.append_nil]
      | some k =>
        obtain ⟨ch, hch⟩ := mem_chs.mp (getCh_some hget).1
        rw [if_pos ⟨hb, by simp⟩, Option.bind_some, hch, bcastOthers_sendAll hI hch hc]
        rfl
    · have hb' : some b ≠ some HASH := fun h => hb (Option.some.inj h)
      rw [if_neg (fun h => hb h.1), if_neg hb']
      by_cases hto : s.getCli t = NULL
      · rw [if_neg (fun h => h.2 hto), if_pos hto, List.append_nil]
        rfl
      · obtain ⟨d, hd, -⟩ := getCli_ne_null hI hto
        rw [if_pos ⟨hb, hto⟩, if_neg hto, reply_sendAll hI hd]
        rfl

/-- **NOTICE** is answered with nothing, and needs no membership. -/
theorem execNotice_run (hI : Inv s) (hc : s.cliAt x = some c) (hreg : c.registered = true)
    (ha1 : ar[1]? = some a1) (ha2 : ar[2]? = some a2) :
    s.execNotice x ar = .ok (s.sendAll (noticeMails s x c a1 a2)) := by
  have hlt := (List.getElem?_eq_some_iff.mp ha2).1
  unfold execNotice
  rw [deref_of_cliAt hI hc]
  show (if c.registered = false ∨ ar.length < 3 then _ else arg ar 1 >>= _) = _
  rw [if_neg (by rw [hreg]; simp; omega), arg_ok ha1]
  show (arg ar 2 >>= _) = _
  rw [arg_ok ha2]
  exact noticeLoop_run hI hc _ [] fun t ht => (splitArgToSubargs_part ht).1

theorem execNotice_silent (hI : Inv s) (hc : s.cliAt x = some c)
    (h : c.registered = false ∨ ar.length < 3) : s.execNotice x ar = .ok s := by
  unfold execNotice
  rw [deref_of_cliAt hI hc]
  exact if_pos h

/-! ## QUIT -/

/-- The text of a `QUIT`. -/
def quitText (ar : List Str) : Str := if ar.length = 2 then (ar[1]?).getD [] else []

/-- The lines of a `QUIT`: one for every client, that names the client it is for. -/
def quitMail (s : Server) (ar : List Str) : Mail :=
  s.clients.map fun d => (d.addr, quitLine d (quitText ar))

theorem execQuit_run (hI : Inv s) (hc : s.cliAt x = some c) :
    s.execQuit x ar = .ok ((s.sendAll (quitMail s ar)).markToErase c.fd) := by
  have hloop : ∀ text, quitLoop text s.clients s =
      .ok (s.sendAll (s.clients.map fun d => (d.addr, quitLine d text))) := fun text =>
    quitLoop_ok text s.clients s fun d hd => ⟨d, deref_of_cliAt hI (cliAt_of_mem hI hd)⟩
  unfold execQuit quitMail quitText
  rw [deref_of_cliAt hI hc]
  show (if ar.length = 2 then arg ar 1 >>= _ else _) = _
  by_cases h2 : ar.length = 2
  · obtain ⟨a1, ha1⟩ := exists_arg ar 1 (by omega)
    rw [if_pos h2, if_pos h2, arg_ok ha1, ha1]
    show (quitLoop a1 s.clients s >>= _) = _
    rw [hloop]
    rfl
  · rw [if_neg h2, if_neg h2]
    show (quitLoop [] s.clients s >>= _) = _
    rw [hloop]
    rfl

/-! ## WHOIS -/

/-- The lines of `WHOIS` for one nick. -/
def whoisMail (s : Server) (x : Ptr) (nick : Str) : Mail :=
  match s.cliAt (s.getCli nick) with
  | some d =>
    [(x, str "311 " ++ nick ++ str " " ++ d.uName ++ str " " ++ d.host ++ str " * :" ++ d.rName),
      (x, str "318 " ++ nick ++ str " :End of WHOIS list")]
  | none => [(x, str "401 :" ++ nick ++ str " No such nick")]

theorem whoisLoop_run (hI : Inv s) (hc : s.cliAt x = some c) : ∀ (nicks : List Str) (mail : Mail),
    whoisLoop x nicks (s.sendAll mail) = .ok (s.sendAll (mail ++ nicks.flatMap (whoisMail s x)))
  | [], mail => by rw [List.flatMap_nil, List.append_nil]; rfl
  | n :: nicks, mail => by
    have hrest := whoisLoop_run hI hc nicks
    unfold whoisLoop
    show (if (s.sendAll mail).getCli n = NULL then (s.sendAll mail).prepareResp x _ >>= _ else
      (s.sendAll mail).deref ((s.sendAll mail).getCli n) >>= _) = _
    rw [getCli_sendAll, List.flatMap_cons, ← List.append_assoc, ← hrest]
    unfold whoisMail
    by_cases h0 : s.getCli n = NULL
    · have hnone : s.cliAt (s.getCli n) = none := by
        cases hd : s.cliAt (s.getCli n) with
        | none => rfl
        | some d => exact absurd h0 (ne_null_of_cliAt hI hd)
      rw [if_pos h0, hnone, reply_sendAll hI hc]
      rfl
    · obtain ⟨d, hd, -⟩ := getCli_ne_null hI h0
      rw [if_neg h0, deref_sendAll (deref_of_cliAt hI hd), hd]
      show ((s.sendAll mail).prepareResp x (str "311 " ++ n ++ str " " ++ d.uName ++ str " " ++ d.host ++
        str " * :" ++ d.rName) >>= _) = _
      rw [reply_sendAll hI hc]
      show ((s.sendAll _).prepareResp x _ >>= _) = _
      rw [reply_sendAll hI hc, List.append_assoc]
      rfl

/-- The lines of `WHOIS`. -/
def whoisMails (s : Server) (x : Ptr) (ar : List Str) : Mail :=
  match ar[1]? with
  | some a1 => (splitArgToSubargs a1).flatMap (whoisMail s x)
  | none => [(x, str "431 :No nickname given")]

theorem execWhois_run (hI : Inv s) (hc : s.cliAt x = some c) :
    s.execWhois x ar = .ok (s.sendAll (whoisMails s x ar)) := by
  unfold execWhois whoisMails
  by_cases h2 : ar.length < 2
  · rw [if_pos h2, List.getElem?_eq_none (by omega)]
    exact reply_ok hI hc _
  · obtain ⟨a1, ha1⟩ := exists_arg ar 1 (by omega)
    rw [if_neg h2, arg_ok ha1, ha1]
    exact whoisLoop_run hI hc _ []

end FtIrc
