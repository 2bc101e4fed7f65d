import FtIrc.Spelling.Join
import FtIrc.Spelling.Privmsg

/-!
# When the spelling of a channel name does not matter

`PART`, `KICK`, `TOPIC`, `MODE` and `INVITE` use every name they find as a key, so for them two safe
spellings are the same (`Respelled.same_of_safe`).  With `JOIN` and `PRIVMSG` this gives the exact
condition for all commands, `respelled_iff`.
-/

namespace FtIrc

open Std Outcome Server

variable {s : Server} {x : Ptr} {ar ar' : List Str} {c : Cli} {a a' n n' : Str} {L R : List Str}
  {cfg : Config} {pass : Str} {lfd : Nat}

/-! ## Safe spellings -/

/-- In a list all of whose items are used as keys, safe spellings are the same. -/
theorem Respelling.eq_of_keys (hI : Inv s) (h : Respelling s a a' L n n' R)
    (hkeys : ∀ v ∈ splitArgToSubargs a, s.getCh v ≠ none → v ∈ s.chs)
    (hkeys' : ∀ v ∈ splitArgToSubargs a', s.getCh v ≠ none → v ∈ s.chs) : a = a' := by
  refine h.eq (h.respelt.eq_of_mem hI ?_ ?_)
  · exact hkeys n (by simp [h.items]) h.respelt.named
  · exact hkeys' n' (by simp [h.items']) h.respelt.symm.named

theorem execKick_short (hI : Inv s) (hc : s.cliAt x = some c) (hreg : c.registered = true)
    (hlen : ar.length < 3) :
    s.execKick x ar = s.prepareResp x (str "461 KICK :Not enough parameters") := by
  unfold execKick
  rw [deref_of_cliAt hI hc]
  show (if c.registered = false then _ else if ar.length < 3 then _ else _) = _
  rw [if_neg (by simp [hreg]), if_pos hlen]

theorem execPrivmsg_short (hI : Inv s) (hc : s.cliAt x = some c) (hreg : c.registered = true)
    (hlen : ar.length = 2) : s.execPrivmsg x ar = s.prepareResp x (str "412 :No text to send") := by
  unfold execPrivmsg
  rw [deref_of_cliAt hI hc]
  show (if c.registered = false then _ else if ar.length = 1 then _ else if ar.length = 2 then _ else
    _) = _
  rw [if_neg (by simp [hreg]), if_neg (by omega), if_pos hlen]

theorem execInvite_unknown {a1 : Str} (hI : Inv s) (hc : s.cliAt x = some c)
    (hreg : c.registered = true) (hlen : ¬ ar.length < 3) (ha1 : ar[1]? = some a1)
    (hto : s.getCli a1 = NULL) :
    s.execInvite x ar = s.prepareResp x (str "401 " ++ a1 ++ str " :No such nick") := by
  obtain ⟨a2, ha2⟩ := exists_arg ar 2 (by omega)
  unfold execInvite
  rw [deref_of_cliAt hI hc]
  show (if c.registered = false then _ else if ar.length < 3 then _ else arg ar 1 >>= fun a1 =>
    arg ar 2 >>= fun a2 => if s.getCli a1 = NULL then _ else _) = _
  rw [if_neg (by simp [hreg]), if_neg hlen, arg_ok ha1, arg_ok ha2]
  exact if_pos hto

/-- A command of a registered client that takes every name as a key, or takes none: two safe
spellings do the same. -/
theorem Respelled.same_of_safe (hI : Inv s) (hc : s.cliAt x = some c) (hreg : c.registered = true)
    (h : Respelled s ar ar') (hjoin : ¬ CmdIs ar "JOIN")
    (hmsg : CmdIs ar "PRIVMSG" → ¬ 2 < ar.length)
    (hsafe : CmdSafe s x ar) (hsafe' : CmdSafe s x ar') :
    SameOutcome s (s.execCmd x ar) (s.execCmd x ar') := by
  have hx : IsReg s x := (isReg_iff hc).mpr hreg
  obtain ⟨t, ht⟩ := (h.done_iff hI hc).mpr hsafe
  have hself : ∀ {i a b}, ar[i]? = some a → a = b →
      SameOutcome s (s.execCmd x ar) (s.execCmd x (ar.set i b)) := fun ha heq => by
    rw [← heq, set_eq_self ha]
    exact sameOutcome_refl ht
  cases h with
  | list l a a' hl hcmd ha h =>
    obtain ⟨L, n, n', R, hsp⟩ := h.respelling hI
    have ha' : (ar.set 1 a')[1]? = some a' := getElem?_set_arg ha
    have hcmd' : CmdIs (ar.set 1 a') l := cmdIs_set.mpr hcmd
    simp only [List.mem_cons, List.not_mem_nil, or_false] at hl
    rcases hl with rfl | rfl | rfl | rfl
    · exact absurd hcmd hjoin
    · refine hself ha (hsp.eq_of_keys hI (fun v hv hget => ?_) fun v hv hget => ?_)
      · exact (hsafe.part hcmd hx a ha v hv hget).1
      · exact (hsafe'.part hcmd' hx a' ha' v hv hget).1
    · by_cases hlen : ar.length < 3
      · rw [execCmd_kick hcmd, execKick_short hI hc hreg hlen] at ht
        rw [execCmd_kick hcmd, execCmd_kick hcmd', execKick_short hI hc hreg hlen,
          execKick_short hI hc hreg (by rw [List.length_set]; exact hlen)]
        exact sameOutcome_refl ht
      · obtain ⟨a2, ha2⟩ := exists_arg ar 2 (by omega)
        have ha2' : (ar.set 1 a')[2]? = some a2 := by rw [List.getElem?_set_ne (by decide), ha2]
        refine hself ha (hsp.eq_of_keys hI (fun v hv hget => ?_) fun v hv hget => ?_)
        · exact (hsafe.kick hcmd hx a ha a2 ha2 v hv hget).1
        · exact (hsafe'.kick hcmd' hx a' ha' a2 ha2' v hv hget).1
    · have hlen : ar.length = 2 := by
        obtain ⟨hlt, -⟩ := List.getElem?_eq_some_iff.mp ha
        have := hmsg hcmd
        omega
      rw [execCmd_privmsg hcmd, execPrivmsg_short hI hc hreg hlen] at ht
      rw [execCmd_privmsg hcmd, execCmd_privmsg hcmd', execPrivmsg_short hI hc hreg hlen,
        execPrivmsg_short hI hc hreg (by rw [List.length_set]; exact hlen)]
      exact sameOutcome_refl ht
  | name l n n' hl hcmd hn h =>
    have hn' : (ar.set 1 n')[1]? = some n' := getElem?_set_arg hn
    have hcmd' : CmdIs (ar.set 1 n') l := cmdIs_set.mpr hcmd
    have hhead : ∀ {br : List Str} {v w}, br[1]? = some v → Respelt s v w →
        ∀ a1 ∈ br[1]?, a1.head? = some HASH := fun hv hvw a1 ha1 => by
      rw [hv] at ha1
      cases ha1
      exact (hvw.chName hI).2.1
    have hnamed : NamedOk s x ar ∧ NamedOk s x (ar.set 1 n') := by
      simp only [List.mem_cons, List.not_mem_nil, or_false] at hl
      rcases hl with rfl | rfl
      · exact ⟨hsafe.topic hcmd, hsafe'.topic hcmd'⟩
      · exact ⟨hsafe.mode hcmd (hhead hn h), hsafe'.mode hcmd' (hhead hn' h.symm)⟩
    refine hself hn (h.eq_of_mem hI ?_ ?_)
    · exact (namedOk_iff hx hn).mp hnamed.1 h.named
    · exact (namedOk_iff hx hn').mp hnamed.2 h.symm.named
  | invite n n' hcmd hn h =>
    have hlen : ¬ ar.length < 3 := by
      obtain ⟨hlt, -⟩ := List.getElem?_eq_some_iff.mp hn
      omega
    have hn' : (ar.set 2 n')[2]? = some n' := getElem?_set_arg hn
    have hcmd' : CmdIs (ar.set 2 n') "INVITE" := cmdIs_set.mpr hcmd
    obtain ⟨a1, ha1⟩ := exists_arg ar 1 (by omega)
    have ha1' : (ar.set 2 n')[1]? = some a1 := by rw [List.getElem?_set_ne (by decide), ha1]
    by_cases hto : s.getCli a1 = NULL
    · rw [execCmd_invite hcmd, execInvite_unknown hI hc hreg hlen ha1 hto] at ht
      rw [execCmd_invite hcmd, execCmd_invite hcmd', execInvite_unknown hI hc hreg hlen ha1 hto,
        execInvite_unknown hI hc hreg (by rw [List.length_set]; exact hlen) ha1' hto]
      exact sameOutcome_refl ht
    · refine hself hn (h.eq_of_mem hI ?_ ?_)
      · exact (inviteOk_iff hx ha1 hn).mp (hsafe.invite hcmd) hto h.named
      · exact (inviteOk_iff hx ha1' hn').mp (hsafe'.invite hcmd') hto h.symm.named

theorem refused_iff (ha : ar[1]? = some a) :
    Refused ar ↔ tooManyTargets (splitArgToSubargs a) = true := by
  unfold Refused
  rw [ha]
  simp

/-- `JOIN` of a registered client. -/
theorem respelled_join (hI : Inv s) (hc : s.cliAt x = some c) (hreg : c.registered = true)
    (hcmd : CmdIs ar "JOIN") (ha : ar[1]? = some a) (h : RespeltIn s a a')
    (hsafe : CmdSafe s x ar) (hsafe' : CmdSafe s x (ar.set 1 a')) :
    SameOutcome s (s.execCmd x ar) (s.execCmd x (ar.set 1 a')) ↔
      (Refused ar ↔ Refused (ar.set 1 a')) ∨ MAX_CHS_PER_USER ≤ s.nbChannels x := by
  obtain ⟨L, n, n', R, hsp⟩ := h.respelling hI
  have hresp : Respelled s ar (ar.set 1 a') := .list "JOIN" a a' (by simp) hcmd ha h
  have ha' : (ar.set 1 a')[1]? = some a' := getElem?_set_arg ha
  have hcmd' : CmdIs (ar.set 1 a') "JOIN" := cmdIs_set.mpr hcmd
  have hkeys : joinKeys (ar.set 1 a') = joinKeys ar := by
    unfold joinKeys
    rw [List.getElem?_set_ne (by decide)]
  have hfull : MAX_CHS_PER_USER ≤ s.nbChannels x ↔ MAX_CHS_PER_USER - 1 < s.nbChannels x := by
    unfold MAX_CHS_PER_USER
    omega
  rw [refused_iff ha, refused_iff ha', hfull]
  obtain ⟨t, ht⟩ := (hresp.done_iff hI hc).mpr hsafe
  obtain ⟨t', ht'⟩ := (hresp.symm.done_iff hI hc).mpr hsafe'
  rw [execCmd_join hcmd] at ht
  rw [execCmd_join hcmd'] at ht'
  rw [execCmd_join hcmd, execCmd_join hcmd']
  constructor
  · intro hsame
    cases hr : tooManyTargets (splitArgToSubargs a) <;>
      cases hr' : tooManyTargets (splitArgToSubargs a')
    · exact .inl Iff.rfl
    · exact .inr (execJoin_full hI hc hreg hcmd ha ha' hsp hr hr' hsame)
    · exact .inr (execJoin_full hI hc hreg hcmd' ha' ha hsp.symm hr' hr hsame.symm)
    · exact .inl Iff.rfl
  · intro hcond
    refine execJoin_same hI hc hreg hcmd ha ha' hkeys hsp ht ht' ?_
    exact hcond.imp_left Bool.eq_iff_iff.mpr

/-- `PRIVMSG` of a registered client, with a text. -/
theorem respelled_privmsg (hI : Inv s) (hc : s.cliAt x = some c) (hreg : c.registered = true)
    (hcmd : CmdIs ar "PRIVMSG") (ha : ar[1]? = some a) (hlen : 2 < ar.length)
    (h : RespeltIn s a a') (hsafe : CmdSafe s x ar) (hsafe' : CmdSafe s x (ar.set 1 a')) :
    SameOutcome s (s.execCmd x ar) (s.execCmd x (ar.set 1 a')) ↔
      (Refused ar ↔ Refused (ar.set 1 a')) ∨ (Quiet s x ar ∧ Quiet s x (ar.set 1 a')) := by
  have hx : IsReg s x := (isReg_iff hc).mpr hreg
  obtain ⟨L, n, n', R, hsp⟩ := h.respelling hI
  have ha' : (ar.set 1 a')[1]? = some a' := getElem?_set_arg ha
  have hcmd' : CmdIs (ar.set 1 a') "PRIVMSG" := cmdIs_set.mpr hcmd
  obtain ⟨a2, ha2⟩ := exists_arg ar 2 hlen
  have ha2' : (ar.set 1 a')[2]? = some a2 := by rw [List.getElem?_set_ne (by decide), ha2]
  have hkeys : tooManyTargets (splitArgToSubargs a) = false → PrivmsgSafe s (splitArgToSubargs a) :=
    hsafe.privmsg hcmd hx a ha hlen
  have hkeys' : tooManyTargets (splitArgToSubargs a') = false →
      PrivmsgSafe s (splitArgToSubargs a') :=
    hsafe'.privmsg hcmd' hx a' ha' (by rw [List.length_set]; exact hlen)
  rw [refused_iff ha, refused_iff ha', execCmd_privmsg hcmd, execCmd_privmsg hcmd']
  cases hr : tooManyTargets (splitArgToSubargs a) <;>
    cases hr' : tooManyTargets (splitArgToSubargs a')
  · refine iff_of_true ?_ (.inl Iff.rfl)
    exact execPrivmsg_same hI hc hreg hcmd hcmd' ha ha' ha2 ha2' hsp hr hr' (hkeys hr) (hkeys' hr')
  · rw [execPrivmsg_quiet hI hc hreg hcmd ha ha' ha2 ha2' hsp hr hr' (hkeys hr)]
    simp
  · have hquiet := execPrivmsg_quiet hI hc hreg hcmd' ha' ha ha2' ha2 hsp.symm hr' hr (hkeys' hr')
    have hswap : SameOutcome s (s.execPrivmsg x ar) (s.execPrivmsg x (ar.set 1 a')) ↔
        SameOutcome s (s.execPrivmsg x (ar.set 1 a')) (s.execPrivmsg x ar) := ⟨.symm, .symm⟩
    rw [hswap, hquiet]
    simp [and_comm]
  · refine iff_of_true ?_ (.inl Iff.rfl)
    rw [execPrivmsg_eq hI hc hreg ha ha2, execPrivmsg_eq hI hc hreg ha' ha2', if_pos hr, if_pos hr']
    exact sameOutcome_replies (prepareResp_sendAll (deref_of_cliAt hI hc)) _

/-! ## The law -/

/-- **When the spelling of a channel name does not matter**: two spellings of a command have the same
outcome exactly if both are safe, and `407` does not tell them apart unless the other does no more
than reply. -/
theorem respelled_iff (hr : Reachable pass lfd cfg) (hc : cfg.srv.cliAt x = some c)
    (h : Respelled cfg.srv ar ar') :
    SameOutcome cfg.srv (cfg.srv.execCmd x ar) (cfg.srv.execCmd x ar') ↔
      RespellOk cfg.srv x ar ar' := by
  have hI := hr.good.inv
  have hok := h.done_iff hI hc
  have hok' := h.symm.done_iff hI hc
  have hsafe : SameOutcome cfg.srv (cfg.srv.execCmd x ar) (cfg.srv.execCmd x ar') →
      CmdSafe cfg.srv x ar ∧ CmdSafe cfg.srv x ar' := by
    rintro ⟨t, t', ht, ht', -⟩
    exact ⟨hok.mp ⟨t, ht⟩, hok'.mp ⟨t', ht'⟩⟩
  cases hreg : c.registered with
  | false =>
    have hno : ¬ IsReg cfg.srv x := fun hx => by
      rw [(isReg_iff hc).mp hx] at hreg
      cases hreg
    obtain ⟨l, hl, hcmd, hmode⟩ := h.cmd hI
    obtain ⟨l', hl', hcmd', hmode'⟩ := h.symm.cmd hI
    have hsame : SameOutcome cfg.srv (cfg.srv.execCmd x ar) (cfg.srv.execCmd x ar') := by
      rw [execCmd_notRegistered hI hc hreg hl hcmd fun he => hmode (he ▸ hcmd),
        execCmd_notRegistered hI hc hreg hl' hcmd' fun he => hmode' (he ▸ hcmd')]
      exact sameOutcome_refl (prepareResp_sendAll (deref_of_cliAt hI hc))
    exact iff_of_true hsame ⟨(hsafe hsame).1, (hsafe hsame).2, fun _ hx => absurd hx hno,
      fun _ hx => absurd hx hno⟩
  | true =>
    have hx : IsReg cfg.srv x := (isReg_iff hc).mpr hreg
    by_cases hjoin : CmdIs ar "JOIN"
    · have hmsg : ¬ CmdIs ar "PRIVMSG" := fun hm => absurd (hjoin.unique hm) (by decide)
      cases h with
      | list l a a' _ _ ha h =>
        constructor
        · intro hsame
          obtain ⟨hs, hs'⟩ := hsafe hsame
          exact ⟨hs, hs', fun _ _ => (respelled_join hI hc hreg hjoin ha h hs hs').mp hsame,
            fun hm => absurd hm hmsg⟩
        · intro hk
          exact (respelled_join hI hc hreg hjoin ha h hk.safe hk.safe').mpr (hk.join hjoin hx)
      | name l n n' hl hcmd _ _ =>
        simp only [List.mem_cons, List.not_mem_nil, or_false] at hl
        rcases hl with rfl | rfl <;> exact absurd (hcmd.unique hjoin) (by decide)
      | invite n n' hcmd _ _ => exact absurd (hcmd.unique hjoin) (by decide)
    · by_cases hmsg : CmdIs ar "PRIVMSG" ∧ 2 < ar.length
      · obtain ⟨hmsg, hlen⟩ := hmsg
        cases h with
        | list l a a' _ _ ha h =>
          constructor
          · intro hsame
            obtain ⟨hs, hs'⟩ := hsafe hsame
            exact ⟨hs, hs', fun hj => absurd hj hjoin,
              fun _ _ _ => (respelled_privmsg hI hc hreg hmsg ha hlen h hs hs').mp hsame⟩
          · intro hk
            exact (respelled_privmsg hI hc hreg hmsg ha hlen h hk.safe hk.safe').mpr
              (hk.privmsg hmsg hx hlen)
        | name l n n' hl hcmd _ _ =>
          simp only [List.mem_cons, List.not_mem_nil, or_false] at hl
          rcases hl with rfl | rfl <;> exact absurd (hcmd.unique hmsg) (by decide)
        | invite n n' hcmd _ _ => exact absurd (hcmd.unique hmsg) (by decide)
      · -- every name is used as a key, or none is
        have hvac : CmdIs ar "PRIVMSG" → ¬ 2 < ar.length := fun hm hl => hmsg ⟨hm, hl⟩
        constructor
        · intro hsame
          exact ⟨(hsafe hsame).1, (hsafe hsame).2, fun hj => absurd hj hjoin,
            fun hm _ hl => absurd hl (hvac hm)⟩
        · intro hk
          exact h.same_of_safe hI hc hreg hjoin hvac hk.safe hk.safe'

/-- A channel whose key has a capital letter is unknown to `PRIVMSG` in every spelling. -/
theorem respelled_iff_unknown : ∃ cfg, runServer (str "2") 3
      (connect 0 alice ++ say 0 0 4 (register "al" ++ str "JOIN #Foo\r\n")) = .ok cfg ∧
    SameOutcome cfg.srv
      (cfg.srv.execCmd alice.addr [str "PRIVMSG", str "#Foo", str "hi"])
      (cfg.srv.execCmd alice.addr [str "PRIVMSG", str "#FOO", str "hi"]) := by
  obtain ⟨cfg, hrun, hP⟩ := exists_run (str "2") 3
    (connect 0 alice ++ say 0 0 4 (register "al" ++ str "JOIN #Foo\r\n"))
    (fun cfg => (cfg.srv.cliAt alice.addr).isSome && decide (cfg.srv.getCh (str "#Foo") ≠ none) &&
      decide (str "#foo" ∉ cfg.srv.chs)) (by decide +kernel)
  simp only [Bool.and_eq_true, Option.isSome_iff_exists, decide_eq_true_eq] at hP
  obtain ⟨⟨⟨c, hc⟩, hnamed⟩, hfresh⟩ := hP
  have hlow : toLower (str "#FOO") = toLower (str "#Foo") := by decide
  have hsafe : ∀ n, toLower n = str "#foo" → splitArgToSubargs n = [n] →
      CmdSafe cfg.srv alice.addr [str "PRIVMSG", n, str "hi"] := by
    intro n hn hitem
    refine ⟨fun _ _ a ha _ _ t ht _ hkey => ?_, fun hc => ?_, fun hc => ?_, fun hc => ?_,
      fun hc => ?_, fun hc => ?_, fun hc => ?_⟩
    · cases ha
      rw [hitem, List.mem_singleton] at ht
      rw [ht, hn] at hkey
      exact absurd hkey hfresh
    all_goals exact absurd (Option.some.inj hc) (by decide)
  have hresp : Respelled cfg.srv [str "PRIVMSG", str "#Foo", str "hi"]
      [str "PRIVMSG", str "#FOO", str "hi"] :=
    .list "PRIVMSG" (str "#Foo") (str "#FOO") (by simp) rfl rfl
      ⟨[], _, _, [], rfl, rfl, ⟨hnamed, hlow⟩, .inl rfl, .inl rfl⟩
  refine ⟨cfg, hrun, (respelled_iff ⟨_, hrun⟩ hc hresp).mpr ⟨?_, ?_, ?_, ?_⟩⟩
  · exact hsafe _ (by decide) (by decide)
  · exact hsafe _ (by decide) (by decide)
  · exact fun hj => absurd (Option.some.inj hj) (by decide)
  · refine fun _ _ _ => .inl (iff_of_false ?_ ?_) <;>
      (rintro ⟨a, ha, hmany⟩
       cases ha
       exact absurd hmany (by decide))

/-- `JOIN #FOO` of a client on `#foo` is a crash, `JOIN #foo` is a reply. -/
theorem spelling_matters : ¬ ∀ (pass : Str) (lfd : Nat) (cfg : Config), Reachable pass lfd cfg →
    ∀ (x : Ptr) (c : Cli), cfg.srv.cliAt x = some c → ∀ ar ar' : List Str,
      Respelled cfg.srv ar ar' → SameOutcome cfg.srv (cfg.srv.execCmd x ar) (cfg.srv.execCmd x ar') := by
  intro hall
  obtain ⟨cfg, hrun, hP⟩ := exists_run (str "2") 3
    (connect 0 alice ++ say 0 0 4 (register "al" ++ str "JOIN #foo\r\n"))
    (fun cfg => (cfg.srv.cliAt alice.addr).isSome && decide (cfg.srv.getCh (str "#foo") ≠ none) &&
      !(cfg.srv.execCmd alice.addr [str "JOIN", str "#FOO"]).isOk) (by decide +kernel)
  simp only [Bool.and_eq_true, Option.isSome_iff_exists, decide_eq_true_eq] at hP
  obtain ⟨⟨⟨c, hc⟩, hnamed⟩, hfail⟩ := hP
  have hlow : toLower (str "#FOO") = toLower (str "#foo") := by decide
  have hresp : Respelled cfg.srv [str "JOIN", str "#foo"] [str "JOIN", str "#FOO"] :=
    .list "JOIN" (str "#foo") (str "#FOO") (by simp) rfl rfl
      ⟨[], _, _, [], rfl, rfl, ⟨hnamed, hlow⟩, .inl rfl, .inl rfl⟩
  obtain ⟨t, t', -, ht', -⟩ := hall _ _ cfg ⟨_, hrun⟩ _ c hc _ _ hresp
  rw [ht'] at hfail
  cases hfail

end FtIrc
