import FtIrc.Spelling.Outcome

/-!
# Two spellings of a PRIVMSG

A target that is safe under two spellings is no channel to `PRIVMSG`, so both are answered with `401`
and only the addressees of the other targets count.
-/

namespace FtIrc

open Std Outcome Server

variable {s : Server} {x y : Ptr} {ar ar' : List Str} {c : Cli} {a a' n n' : Str} {L R : List Str}

/-! ## Addressees -/

/-- To whom the lines go does not depend on what they say. -/
theorem addressees_privmsgMail (a1 a2 b1 b2 target : Str) :
    (privmsgMail s x c a1 a2 target).map (·.1) = (privmsgMail s x c b1 b2 target).map (·.1) := by
  have hothers : ∀ (ch : Ch) (m m' : Str),
      (bcastOthers ch x m).map (·.1) = (bcastOthers ch x m').map (·.1) := by
    intro ch m m'
    unfold bcastOthers
    rw [List.map_map, List.map_map]
    rfl
  unfold privmsgMail
  by_cases hH : target.head? = some HASH
  · rw [if_pos hH, if_pos hH]
    by_cases hlow : toLower target ∈ s.chs
    · rw [if_neg (not_not.mpr hlow), if_neg (not_not.mpr hlow)]
      cases s.chs[target]? with
      | none => rfl
      | some ch =>
        show List.map _ (if x ∈ ch.clis then _ else _) = List.map _ (if x ∈ ch.clis then _ else _)
        by_cases hon : x ∈ ch.clis
        · rw [if_pos hon, if_pos hon]
          exact hothers ch _ _
        · rw [if_neg hon, if_neg hon]
    · rw [if_pos hlow, if_pos hlow]
  · rw [if_neg hH, if_neg hH]
    by_cases hto : s.getCli target = NULL
    · rw [if_pos hto, if_pos hto]
    · rw [if_neg hto, if_neg hto]
      rfl

theorem Reaches.live (hI : Inv s) {target : Str} (h : Reaches s x target y) :
    ∃ d, s.cliAt y = some d := by
  unfold Reaches at h
  split at h
  · obtain ⟨-, -, ⟨ch, hch, hy⟩, -⟩ := h
    obtain ⟨d, hd, -⟩ := hI.member target ch hch y hy
    exact ⟨d, hd⟩
  · obtain ⟨rfl, hne⟩ := h
    obtain ⟨d, hd, -⟩ := getCli_ne_null hI hne
    exact ⟨d, hd⟩

theorem quiet_iff {a2 : Str} (ha : ar[1]? = some a) :
    Quiet s x ar ↔ ∀ y m, (y, m) ∈ privmsgMails s x c a a2 → y = x := by
  constructor
  · intro h y m hm
    by_contra hy
    obtain ⟨target, ht, hm⟩ := List.mem_flatMap.mp hm
    exact hy (h a ha target ht y ((reaches_iff c a a2 hy).mp ⟨m, hm⟩))
  · intro h b hb target ht y hreach
    rw [ha] at hb
    cases hb
    by_contra hy
    obtain ⟨m, hm⟩ := (reaches_iff c a a2 hy).mpr hreach
    exact hy (h y m (List.mem_flatMap.mpr ⟨target, ht, hm⟩))

/-- Two different spellings that are both safe are both answered with `401`. -/
theorem Respelt.addressee {a1 a2 : Str} {tos tos' : List Str} (hI : Inv s) (h : Respelt s n n')
    (hne : n ≠ n') (hsafe : PrivmsgSafe s tos) (hn : n ∈ tos) (hsafe' : PrivmsgSafe s tos')
    (hn' : n' ∈ tos') : (privmsgMail s x c a1 a2 n).map (·.1) = [x] := by
  have hH := (h.chName hI).2.1
  have hlow : toLower n ∉ s.chs := by
    intro hlow
    refine hne (h.eq_of_mem hI (hsafe n hn hH hlow) ?_)
    exact hsafe' n' hn' (h.symm.chName hI).2.1 (h.lower ▸ hlow)
  unfold privmsgMail
  rw [if_pos hH, if_pos hlow]
  rfl

/-- Two spellings of a `PRIVMSG` that is not refused do the same if both are safe. -/
theorem execPrivmsg_same {a2 : Str} (hI : Inv s) (hc : s.cliAt x = some c)
    (hreg : c.registered = true) (hcmd : CmdIs ar "PRIVMSG") (hcmd' : CmdIs ar' "PRIVMSG")
    (ha : ar[1]? = some a) (ha' : ar'[1]? = some a') (ha2 : ar[2]? = some a2)
    (ha2' : ar'[2]? = some a2) (hsp : Respelling s a a' L n n' R)
    (hrun : tooManyTargets (splitArgToSubargs a) = false)
    (hrun' : tooManyTargets (splitArgToSubargs a') = false)
    (hsafe : PrivmsgSafe s (splitArgToSubargs a)) (hsafe' : PrivmsgSafe s (splitArgToSubargs a')) :
    SameOutcome s (s.execPrivmsg x ar) (s.execPrivmsg x ar') := by
  rw [execPrivmsg_run hI hc hreg hcmd ha ha2 hrun hsafe,
    execPrivmsg_run hI hc hreg hcmd' ha' ha2' hrun' hsafe']
  refine sameOutcome_sendAll ?_
  have hitem : (privmsgMail s x c a a2 n).map (·.1) = (privmsgMail s x c a' a2 n').map (·.1) := by
    by_cases heq : n = n'
    · rw [heq]
      exact addressees_privmsgMail a a2 a' a2 n'
    · have hn : n ∈ splitArgToSubargs a := by simp [hsp.items]
      have hn' : n' ∈ splitArgToSubargs a' := by simp [hsp.items']
      rw [hsp.respelt.addressee hI heq hsafe hn hsafe' hn',
        hsp.respelt.symm.addressee hI (Ne.symm heq) hsafe' hn' hsafe hn]
  have hrest : ∀ l : List Str, (l.flatMap (privmsgMail s x c a a2)).map (·.1) =
      (l.flatMap (privmsgMail s x c a' a2)).map (·.1) := by
    intro l
    rw [List.map_flatMap, List.map_flatMap]
    exact congrArg l.flatMap (funext fun t => addressees_privmsgMail a a2 a' a2 t)
  unfold privmsgMails
  rw [hsp.items, hsp.items', List.flatMap_append, List.flatMap_append, List.flatMap_cons,
    List.flatMap_cons, List.map_append, List.map_append, List.map_append, List.map_append, hrest L,
    hitem, hrest R]

/-- If `407` tells two spellings of a `PRIVMSG` apart, they do the same exactly if the one that is
not refused is quiet. -/
theorem execPrivmsg_quiet {a2 : Str} (hI : Inv s) (hc : s.cliAt x = some c)
    (hreg : c.registered = true) (hcmd : CmdIs ar "PRIVMSG") (ha : ar[1]? = some a)
    (ha' : ar'[1]? = some a') (ha2 : ar[2]? = some a2) (ha2' : ar'[2]? = some a2)
    (hsp : Respelling s a a' L n n' R) (hrun : tooManyTargets (splitArgToSubargs a) = false)
    (hstop : tooManyTargets (splitArgToSubargs a') = true)
    (hsafe : PrivmsgSafe s (splitArgToSubargs a)) :
    SameOutcome s (s.execPrivmsg x ar) (s.execPrivmsg x ar') ↔ Quiet s x ar ∧ Quiet s x ar' := by
  obtain ⟨hne, hmem⟩ := hsp.mem_of_refused hrun hstop
  have hn : n ∈ splitArgToSubargs a := by simp [hsp.items]
  have hn' : n' ∈ splitArgToSubargs a := by
    rw [hsp.items]
    rcases List.mem_append.mp hmem with hm | hm <;> simp [hm]
  -- the refused line names no other targets
  have hquiet : Quiet s x ar → Quiet s x ar' := by
    intro h b hb target ht
    rw [ha'] at hb
    cases hb
    refine h a ha target ?_
    rw [hsp.items'] at ht
    rcases List.mem_append.mp ht with ht | ht
    · simp [hsp.items, ht]
    · rcases List.mem_cons.mp ht with rfl | ht
      · exact hn'
      · simp [hsp.items, ht]
  have hself : ∃ m, (x, m) ∈ privmsgMails s x c a a2 := by
    have hx : x ∈ (privmsgMail s x c a a2 n).map (·.1) := by
      rw [hsp.respelt.addressee hI hne hsafe hn hsafe hn']
      exact List.mem_singleton.mpr rfl
    obtain ⟨⟨y, m⟩, hm, rfl⟩ := List.mem_map.mp hx
    exact ⟨m, List.mem_flatMap.mpr ⟨n, hn, hm⟩⟩
  rw [execPrivmsg_run hI hc hreg hcmd ha ha2 hrun hsafe, execPrivmsg_eq hI hc hreg ha' ha2',
    if_pos hstop, prepareResp_sendAll (deref_of_cliAt hI hc)]
  constructor
  · rintro ⟨t, t', ht, ht', -, hheard⟩
    cases ht
    cases ht'
    have hq : Quiet s x ar := by
      intro b hb target htarget y hreach
      rw [ha] at hb
      cases hb
      by_contra hy
      obtain ⟨m, hm⟩ := (reaches_iff c a a2 hy).mpr hreach
      have hh := (hheard y).mp (heard_sendAll.mpr
        ⟨hreach.live hI, m, List.mem_flatMap.mpr ⟨target, htarget, hm⟩⟩)
      obtain ⟨-, m', hm'⟩ := heard_sendAll.mp hh
      simp [hy] at hm'
    exact ⟨hq, hquiet hq⟩
  · rintro ⟨hq, -⟩
    refine ⟨_, _, rfl, rfl, by rw [chs_sendAll, chs_sendAll], fun y => ?_⟩
    rw [heard_sendAll, heard_sendAll]
    refine and_congr_right fun _ => ⟨fun ⟨m, hm⟩ => ?_, fun ⟨m, hm⟩ => ?_⟩
    · rw [(quiet_iff ha).mp hq y m hm]
      exact ⟨_, List.mem_singleton.mpr rfl⟩
    · rw [List.mem_singleton, Prod.mk.injEq] at hm
      rw [hm.1]
      exact hself

end FtIrc
