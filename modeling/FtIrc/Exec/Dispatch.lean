import FtIrc.Exec.Registration
import FtIrc.Exec.Messaging
import FtIrc.Exec.Join
import FtIrc.Exec.Mode

/-!
# Executing a command

`execCmd_spec`: a command succeeds exactly if `CmdSafe`, and what it then does are steps of its
author.  Nine commands cannot fail; the others need the names of channels to be spelled as keys.
-/

namespace FtIrc

open Std Outcome Server

variable {s₀ s : Server} {x : Ptr} {ar : List Str} {c : Cli} {l : String} {line : Str}

/-- What the command needs in order not to fail. -/
structure CmdSafe (s : Server) (x : Ptr) (ar : List Str) : Prop where
  privmsg : CmdIs ar "PRIVMSG" → PrivmsgOk s x ar
  join : CmdIs ar "JOIN" → JoinOk s x ar
  part : CmdIs ar "PART" → PartOk s x ar
  kick : CmdIs ar "KICK" → KickOk s x ar
  invite : CmdIs ar "INVITE" → InviteOk s x ar
  topic : CmdIs ar "TOPIC" → NamedOk s x ar
  mode : CmdIs ar "MODE" → (∀ a1 ∈ ar[1]?, a1.head? = some HASH) → NamedOk s x ar

/-- The commands that name channels. -/
def channelCmds : List String := ["PRIVMSG", "JOIN", "PART", "KICK", "INVITE", "TOPIC", "MODE"]

theorem cmdSafe_of_other (h : CmdIs ar l) (hl : ∀ l' ∈ channelCmds, str l ≠ str l') :
    CmdSafe s x ar := by
  have hno : ∀ l' ∈ channelCmds, ¬ CmdIs ar l' := fun l' hl' hc => hl l' hl' (h.unique hc)
  simp only [channelCmds, List.mem_cons, List.not_mem_nil, or_false, forall_eq_or_imp, forall_eq] at hno
  obtain ⟨h1, h2, h3, h4, h5, h6, h7⟩ := hno
  exact ⟨fun hc => absurd hc h1, fun hc => absurd hc h2, fun hc => absurd hc h3,
    fun hc => absurd hc h4, fun hc => absurd hc h5, fun hc => absurd hc h6, fun hc => absurd hc h7⟩

/-- For a command that names channels, only its own condition counts. -/
theorem cmdSafe_iff (h : CmdIs ar l) : CmdSafe s x ar ↔
    (str l = str "PRIVMSG" → PrivmsgOk s x ar) ∧ (str l = str "JOIN" → JoinOk s x ar) ∧
      (str l = str "PART" → PartOk s x ar) ∧ (str l = str "KICK" → KickOk s x ar) ∧
      (str l = str "INVITE" → InviteOk s x ar) ∧ (str l = str "TOPIC" → NamedOk s x ar) ∧
      (str l = str "MODE" → (∀ a1 ∈ ar[1]?, a1.head? = some HASH) → NamedOk s x ar) := by
  have hiff : ∀ l', CmdIs ar l' ↔ str l = str l' := fun l' =>
    ⟨fun hc => h.unique hc, fun he => by unfold CmdIs; rw [← he]; exact h⟩
  constructor
  · intro hs
    simp only [← hiff]
    exact ⟨hs.privmsg, hs.join, hs.part, hs.kick, hs.invite, hs.topic, hs.mode⟩
  · intro hs
    simp only [← hiff] at hs
    obtain ⟨h1, h2, h3, h4, h5, h6, h7⟩ := hs
    exact ⟨h1, h2, h3, h4, h5, h6, h7⟩

theorem cmdSafe_privmsg (h : CmdIs ar "PRIVMSG") : CmdSafe s x ar ↔ PrivmsgOk s x ar := by
  simp +decide only [cmdSafe_iff h, false_imp_iff, true_imp_iff, and_true]

theorem cmdSafe_join (h : CmdIs ar "JOIN") : CmdSafe s x ar ↔ JoinOk s x ar := by
  simp +decide only [cmdSafe_iff h, false_imp_iff, true_imp_iff, true_and, and_true]

theorem cmdSafe_part (h : CmdIs ar "PART") : CmdSafe s x ar ↔ PartOk s x ar := by
  simp +decide only [cmdSafe_iff h, false_imp_iff, true_imp_iff, true_and, and_true]

theorem cmdSafe_kick (h : CmdIs ar "KICK") : CmdSafe s x ar ↔ KickOk s x ar := by
  simp +decide only [cmdSafe_iff h, false_imp_iff, true_imp_iff, true_and, and_true]

theorem cmdSafe_invite (h : CmdIs ar "INVITE") : CmdSafe s x ar ↔ InviteOk s x ar := by
  simp +decide only [cmdSafe_iff h, false_imp_iff, true_imp_iff, true_and, and_true]

theorem cmdSafe_topic (h : CmdIs ar "TOPIC") : CmdSafe s x ar ↔ NamedOk s x ar := by
  simp +decide only [cmdSafe_iff h, false_imp_iff, true_imp_iff, true_and, and_true]

theorem cmdSafe_mode (h : CmdIs ar "MODE") : CmdSafe s x ar ↔
    ((∀ a1 ∈ ar[1]?, a1.head? = some HASH) → NamedOk s x ar) := by
  simp +decide only [cmdSafe_iff h, false_imp_iff, true_imp_iff, true_and]

theorem execMode_spec (h : Mid s₀ x ar c s₀) (hcmd : CmdIs ar "MODE") (hne : ∀ a1 ∈ ar[1]?, a1 ≠ []) :
    Decides Fault.isNull ((∀ a1 ∈ ar[1]?, a1.head? = some HASH) → NamedOk s₀ x ar) (Mid s₀ x ar c)
      (if 1 < ar.length then do
        let a1 ← arg ar 1
        let b ← first a1
        if b = HASH then s₀.execModeCh x ar else s₀.execModeCli x ar
      else s₀.prepareResp x (str "461 MODE :Not enough parameters")) := by
  split
  · rename_i hlen
    obtain ⟨a1, ha1⟩ := exists_arg ar 1 hlen
    obtain ⟨b, hb, hhead⟩ := first_ok (hne a1 ha1)
    rw [arg_ok ha1]
    show Decides _ _ _ (first a1 >>= _)
    rw [hb]
    show Decides _ _ _ (if b = HASH then _ else _)
    split
    · rename_i hH
      refine (execModeCh_spec h hcmd ha1).congr (imp_iff_right fun a ha => ?_)
      rw [ha1] at ha
      cases ha
      rw [hhead, hH]
    · rename_i hH
      refine (execModeCli_done h ha1).decides fun hall => absurd (hall a1 ha1) fun he => hH ?_
      rw [hhead] at he
      exact Option.some.inj he
  · rename_i hlen
    refine (h.reply_done fun _ _ => by simp (disch := decide)).decides fun _ _ a ha => ?_
    have := (List.getElem?_eq_some_iff.mp ha).1
    omega

/-- **A command succeeds exactly if `CmdSafe`**, and its effect is then a sequence of steps. -/
theorem execCmd_spec (h : Mid s₀ x ar c s₀) (hne : CmdIs ar "MODE" → ∀ a1 ∈ ar[1]?, a1 ≠ []) :
    Decides Fault.isNull (CmdSafe s₀ x ar) (Mid s₀ x ar c) (s₀.execCmd x ar) := by
  cases ar with
  | nil =>
    refine (done_ok h).decides ?_
    constructor <;> (intro hc; cases hc)
  | cons a0 rest =>
    have hcmd : ∀ {l}, a0 = str l → CmdIs (a0 :: rest) l := fun he => congrArg some he
    unfold execCmd
    simp only
    by_cases h1 : a0 = str "PASS"
    · rw [if_pos h1]
      exact (execPass_done h (hcmd h1)).decides (cmdSafe_of_other (hcmd h1) (by decide))
    rw [if_neg h1]
    by_cases h2 : a0 = str "NICK"
    · rw [if_pos h2]
      exact (execNick_done h (hcmd h2)).decides (cmdSafe_of_other (hcmd h2) (by decide))
    rw [if_neg h2]
    by_cases h3 : a0 = str "USER"
    · rw [if_pos h3]
      exact (execUser_done h (hcmd h3)).decides (cmdSafe_of_other (hcmd h3) (by decide))
    rw [if_neg h3]
    by_cases h4 : a0 = str "QUIT"
    · rw [if_pos h4]
      exact (execQuit_done h (hcmd h4)).decides (cmdSafe_of_other (hcmd h4) (by decide))
    rw [if_neg h4]
    by_cases h5 : a0 = str "PING"
    · rw [if_pos h5]
      exact (execPing_done h).decides (cmdSafe_of_other (hcmd h5) (by decide))
    rw [if_neg h5]
    by_cases h6 : a0 = str "CAP"
    · rw [if_pos h6]
      exact (execCap_done h (hcmd h6)).decides (cmdSafe_of_other (hcmd h6) (by decide))
    rw [if_neg h6]
    by_cases h7 : a0 = str "WHOIS"
    · rw [if_pos h7]
      exact (execWhois_done h).decides (cmdSafe_of_other (hcmd h7) (by decide))
    rw [if_neg h7]
    by_cases h8 : a0 = str "PRIVMSG"
    · rw [if_pos h8]
      exact (execPrivmsg_spec h (hcmd h8)).congr (cmdSafe_privmsg (hcmd h8))
    rw [if_neg h8]
    by_cases h9 : a0 = str "NOTICE"
    · rw [if_pos h9]
      exact (execNotice_done h).decides (cmdSafe_of_other (hcmd h9) (by decide))
    rw [if_neg h9]
    by_cases h10 : a0 = str "JOIN"
    · rw [if_pos h10]
      exact (execJoin_spec h (hcmd h10)).congr (cmdSafe_join (hcmd h10))
    rw [if_neg h10]
    by_cases h11 : a0 = str "PART"
    · have hnick : ¬ CmdIs (a0 :: rest) "NICK" := fun hn =>
        absurd (hn.unique (hcmd h11)) (by decide)
      rw [if_pos h11]
      exact (execPart_spec _ h (.inl (hcmd h11)) hnick fun _ hA => hA).congr (cmdSafe_part (hcmd h11))
    rw [if_neg h11]
    by_cases h12 : a0 = str "MODE"
    · rw [if_pos h12]
      exact (execMode_spec h (hcmd h12) (hne (hcmd h12))).congr (cmdSafe_mode (hcmd h12))
    rw [if_neg h12]
    by_cases h13 : a0 = str "TOPIC"
    · rw [if_pos h13]
      exact (execTopic_spec h (hcmd h13)).congr (cmdSafe_topic (hcmd h13))
    rw [if_neg h13]
    by_cases h14 : a0 = str "INVITE"
    · rw [if_pos h14]
      exact (execInvite_spec h (hcmd h14)).congr (cmdSafe_invite (hcmd h14))
    rw [if_neg h14]
    by_cases h15 : a0 = str "KICK"
    · rw [if_pos h15]
      exact (execKick_spec h (hcmd h15)).congr (cmdSafe_kick (hcmd h15))
    rw [if_neg h15]
    refine (h.reply_done fun _ hA => ?_).decides ?_
    · simp (disch := decide) [hA a0 (by simp)]
    · constructor <;> intro hc
      · exact absurd (Option.some.inj hc) h8
      · exact absurd (Option.some.inj hc) h10
      · exact absurd (Option.some.inj hc) h11
      · exact absurd (Option.some.inj hc) h15
      · exact absurd (Option.some.inj hc) h14
      · exact absurd (Option.some.inj hc) h13
      · exact absurd (Option.some.inj hc) h12

/-- The arguments of a line are not empty. -/
theorem execCmd_line (h : Mid s₀ x (splitCmdToArgs line) c s₀) :
    Decides Fault.isNull (CmdSafe s₀ x (splitCmdToArgs line)) (Mid s₀ x (splitCmdToArgs line) c)
      (s₀.execCmd x (splitCmdToArgs line)) :=
  execCmd_spec h fun _ _ ha => (splitCmdToArgs_arg (List.mem_of_getElem? ha)).1

end FtIrc
