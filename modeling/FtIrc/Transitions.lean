import FtIrc.Meaning.Cleanup
import FtIrc.Reach

/-!
# What a transition can do

A transition executes a command or is one of the loop's own (`Move.cmd_or`).  Those of the loop touch the
channels only in the two passes of the cleanup, and of the records they change at most the buffers.
-/

namespace FtIrc

open Std Outcome Server

variable {s s' : Server} {x p : Ptr} {c d : Cli} {k line : Str} {ch : Ch} {phase phase' : Phase} {i : Input}
  {cfg cfg' : Config}

/-! ## The commands -/

/-- A transition executes a command, or its phase has none to execute. -/
theorem Move.cmd_or (h : Move s phase i s' phase') :
    (∃ x line lines todo, phase = .cmds x (line :: lines) todo ∧ s.execLine x line = .ok s') ∨
    ∀ x line lines todo, phase ≠ .cmds x (line :: lines) todo := by
  cases h with
  | cmd x line lines todo s' hs => exact .inl ⟨x, line, lines, todo, rfl, hs⟩
  | _ => exact .inr nofun

/-- The command that is next is the one that is executed. -/
theorem exec_of_upcoming (hg : Good cfg) (hstep : step cfg i = .ok cfg') (hnext : cfg.upcoming = some (x, line)) :
    ∃ c, cfg.srv.cliAt x = some c ∧ cfg.srv.execLine x line = .ok cfg'.srv := by
  obtain ⟨lines, todo, hphase⟩ := Config.upcoming_eq_some.mp hnext
  obtain ⟨⟨c, hc⟩, -⟩ := hg.author x (line :: lines) todo hphase
  rcases (move_of_step hstep).cmd_or with ⟨y, line', lines', todo', hphase', hs⟩ | hno
  · rw [hphase] at hphase'
    cases hphase'
    exact ⟨c, hc, hs⟩
  · exact absurd hphase (hno x line lines todo)

/-! ## The channels -/

/-- The two passes of the cleanup are all that touches the channels besides the commands. -/
theorem Move.chs_cases (h : Move s phase i s' phase') (hI : Inv s)
    (hphase : ∀ x line lines todo, phase ≠ .cmds x (line :: lines) todo) :
    (phase = .clis ∧ s' = s.cleaned) ∨
    (phase = .chs ∧ s' = { s with chs := s.chs.filter fun _ ch => ch.size ≠ 0 }) ∨
    (phase ≠ .clis ∧ s'.chs = s.chs) := by
  cases h with
  | clis s' hs =>
    rw [eraseUnusedClis_eq hI] at hs
    cases hs
    exact .inl ⟨rfl, rfl⟩
  | chs s' freed hs =>
    rw [eraseUnusedChs_ok hI] at hs
    cases hs
    exact .inr (.inl ⟨rfl, rfl⟩)
  | recv fd r todo c chunk s' lines _ hc _ hs =>
    rw [receiveBuf_ok hI (cliAt_of_clis hI hc)] at hs
    cases hs
    exact .inr (.inr ⟨nofun, rfl⟩)
  | send fd r todo c n d s' _ _ hc _ _ hs =>
    rw [sendPreparedResps_eq hI (cliAt_of_clis hI hc)] at hs
    cases hs
    exact .inr (.inr ⟨nofun, rfl⟩)
  | cmd x line lines todo s' hs => exact absurd rfl (hphase x line lines todo)
  | _ => exact .inr (.inr ⟨nofun, rfl⟩)

/-- So they only take channels away, and members from the channels. -/
theorem Move.chs_sub (h : Move s phase i s' phase') (hI : Inv s)
    (hphase : ∀ x line lines todo, phase ≠ .cmds x (line :: lines) todo) (hch : s'.chs[k]? = some ch) :
    ∃ ch₀, s.chs[k]? = some ch₀ ∧ ∀ p ∈ ch.clis, p ∈ ch₀.clis := by
  rcases h.chs_cases hI hphase with ⟨-, rfl⟩ | ⟨-, rfl⟩ | ⟨-, hsame⟩
  · rw [getElem?_chs_cleaned, Option.map_eq_some_iff] at hch
    obtain ⟨ch₀, hch₀, rfl⟩ := hch
    exact ⟨ch₀, hch₀, fun p hp => ((mem_clis_dropEach _ ch₀).mp hp).1⟩
  · exact ⟨ch, (getElem?_filter_size.mp hch).1, fun p hp => hp⟩
  · exact ⟨ch, hsame ▸ hch, fun p hp => hp⟩

theorem Move.key (h : Move s phase i s' phase') (hI : Inv s)
    (hphase : ∀ x line lines todo, phase ≠ .cmds x (line :: lines) todo) (hk : k ∈ s'.chs) : k ∈ s.chs := by
  obtain ⟨ch, hch⟩ := mem_chs.mp hk
  obtain ⟨ch₀, hch₀, -⟩ := h.chs_sub hI hphase hch
  exact mem_chs.mpr ⟨ch₀, hch₀⟩

theorem Move.on (h : Move s phase i s' phase') (hI : Inv s)
    (hphase : ∀ x line lines todo, phase ≠ .cmds x (line :: lines) todo) (hon : On s' p k) : On s p k := by
  obtain ⟨ch, hch, hp⟩ := hon
  obtain ⟨ch₀, hch₀, hsub⟩ := h.chs_sub hI hphase hch
  exact ⟨ch₀, hch₀, hsub p hp⟩

/-! ## The records -/

/-- The records differ at most in the buffers and in what has been sent from them. -/
def Rebuffered (c d : Cli) : Prop := ∃ out got acc,
  d = { c with bufToSend := out, bufRecv := got, hist := { c.hist with accepted := acc } }

theorem Rebuffered.refl (c : Cli) : Rebuffered c c := ⟨_, _, _, rfl⟩

theorem rebuffered_put (hc : s.cliAt x = some c) (h : Rebuffered c d) {e : Cli}
    (he : e ∈ (s.updCli x fun _ => d).clients) : ∃ c ∈ s.clients, Rebuffered c e := by
  rcases (mem_clients_put hc).mp he with rfl | ⟨he, -⟩
  · exact ⟨c, (cliAt_mem hc).1, h⟩
  · exact ⟨e, he, .refl e⟩

/-- A record is one from before, or that of a new connection. -/
theorem Move.record (h : Move s phase i s' phase') (hI : Inv s)
    (hphase : ∀ x line lines todo, phase ≠ .cmds x (line :: lines) todo) (hd : d ∈ s'.clients) :
    (∃ c ∈ s.clients, Rebuffered c d) ∨
      ∃ conn, acceptContract s conn = true ∧ d = Cli.new conn.addr conn.fd (inetNtoa conn.ip) := by
  cases h with
  | clis s' hs =>
    rw [eraseUnusedClis_eq hI] at hs
    cases hs
    exact .inl ⟨d, mem_clients_cleaned hd, .refl d⟩
  | chs s' freed hs =>
    rw [eraseUnusedChs_ok hI] at hs
    cases hs
    exact .inl ⟨d, hd, .refl d⟩
  | accept r todo conn _ hconn =>
    rcases (mem_clients_addNewClient hconn).mp hd with rfl | hd
    · exact .inr ⟨conn, hconn, rfl⟩
    · exact .inl ⟨d, hd, .refl d⟩
  | recv fd r todo c chunk s' lines _ hc _ hs =>
    rw [receiveBuf_ok hI (cliAt_of_clis hI hc)] at hs
    cases hs
    exact .inl (rebuffered_put (cliAt_of_clis hI hc) ⟨_, _, _, rfl⟩ hd)
  | send fd r todo c n e s' _ _ hc _ _ hs =>
    rw [sendPreparedResps_eq hI (cliAt_of_clis hI hc)] at hs
    cases hs
    exact .inl (rebuffered_put (cliAt_of_clis hI hc) ⟨_, _, _, rfl⟩ hd)
  | cmd x line lines todo s' hs => exact absurd rfl (hphase x line lines todo)
  | _ => exact .inl ⟨d, hd, .refl d⟩

end FtIrc
