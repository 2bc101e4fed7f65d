import FtIrc.Limits
import FtIrc.Progress
import FtIrc.Resources

/-!
# The process

`main`, `Server::init`, the exits of `Server::run` and `~Server`.  `launch` is the process up to `run`, given what
the kernel answers to `init`; `Process.step` is the machine of `run` with what can end it: `sigReceived`, which is
tested before each iteration, and an error of `poll`.  When `main` returns, the server is destroyed.

* `startup` — which failures of `init` the destructor makes good: it closes `fdForNewClis`, whatever is in it.
* `gives_back` — once `init` has succeeded, the process gives back everything that it acquires, once.
* `ends_after_signal` — after a signal `main` returns within a bounded number of steps.
-/

namespace FtIrc

open Std Outcome Server Ledger

variable {argv : List Str} {pass : Str} {lfd fd : Nat} {cfg cfg' : Config} {sig : Bool} {b : Bool} {held : Finset Asset}

/-! ## `init` -/

/-- What the process acquires. -/
inductive Asset where
  /-- the list of `getaddrinfo` -/
  | addrs
  | fd (fd : Int)
  | cli (p : Ptr)
  | ch (k : Str)
  deriving DecidableEq, Repr

def Resource.asset : Resource → Asset
  | .fd fd => .fd fd
  | .cli p => .cli p
  | .ch k => .ch k

/-- What becomes of one of the addresses. -/
inductive Attempt where
  /-- `socket` returns -1 -/
  | noSocket
  /-- `setsockopt` fails -/
  | noOption (fd : Nat)
  /-- `bind` fails -/
  | noBind (fd : Nat)
  | bound (fd : Nat)
  deriving DecidableEq, Repr

/-- What is answered to `init`. -/
structure Setup where
  /-- the addresses of `getaddrinfo`, at least one; `none` if it fails -/
  found : Option (Attempt × List Attempt)
  /-- `listen` succeeds -/
  listens : Bool
  /-- `strerror(errno)` -/
  reason : Str

/-- What `init` has acquired and released, `fdForNewClis`, and the exception. -/
structure Startup where
  log : List (Entry Asset)
  fdForNewClis : Int
  thrown : Option Str

/-- The text of an exception. -/
def errorText (call : String) (reason : Str) : Str := str call ++ str " error: [" ++ reason ++ str "]"

/-- The loop of `init` over the addresses. -/
def bindLoop (reason : Str) : Attempt → List Attempt → Startup
  | .noSocket, _ => ⟨[], -1, some (errorText "function socket" reason)⟩
  | .noOption fd, _ => ⟨[.acquire (.fd fd)], fd, some (errorText "setsockopt" reason)⟩
  | .bound fd, _ => ⟨[.acquire (.fd fd)], fd, none⟩
  | .noBind fd, [] => ⟨[.acquire (.fd fd), .release (.fd fd)], fd, some (errorText "bind" reason)⟩
  | .noBind fd, a :: rest =>
    let r := bindLoop reason a rest
    ⟨.acquire (.fd fd) :: .release (.fd fd) :: r.log, r.fdForNewClis, r.thrown⟩

/-- `Server::init`; `junk` is what is in `fdForNewClis`, which the constructor does not set. -/
def init (junk : Int) (a : Setup) : Startup :=
  match a.found with
  | none => ⟨[], junk, some (errorText "getaddrinfo" a.reason)⟩
  | some (first, rest) =>
    let r := bindLoop a.reason first rest
    match r.thrown with
    | some msg => ⟨.acquire .addrs :: r.log, r.fdForNewClis, some msg⟩
    | none =>
      ⟨.acquire .addrs :: r.log ++ [.release .addrs], r.fdForNewClis,
        if a.listens then none else some (errorText "listen" a.reason)⟩

/-! ## `run` and `main` -/

/-- A process. -/
inductive Process where
  /-- in `run`; the handler of the signals sets `sigReceived` -/
  | running (cfg : Config) (sigReceived : Bool)
  /-- `main` has returned and the server is destroyed -/
  | returned

/-- What happens to a process. -/
inductive Call where
  | sys (i : Input)
  /-- `SIGINT`, `SIGQUIT` or `SIGTERM` -/
  | signal
  /-- `poll` returns a negative number, which `run` throws and `main` catches -/
  | pollError
  deriving DecidableEq, Repr

def Process.step : Process → Call → Except Halt Process
  | .running cfg _, .signal => .ok (.running cfg true)
  | .running cfg sigReceived, .sys i =>
    match cfg.phase, i with
    | .clis, .next =>
      if sigReceived then .ok .returned
      else do
        let cfg ← FtIrc.step cfg i
        .ok (.running cfg sigReceived)
    | _, _ => do
      let cfg ← FtIrc.step cfg i
      .ok (.running cfg sigReceived)
  | .running cfg _, .pollError =>
    match cfg.phase with
    | .poll => .ok .returned
    | _ => .error .disabled
  | .returned, _ => .error .disabled

/-- `~Server`. -/
def destroy (s : Server) : List (Entry Asset) := s.holdings.map fun r => .release r.asset

/-- What a step of the process acquires and releases. -/
def Process.entries : Process → Call → List (Entry Asset)
  | .running _ _, .signal => []
  | .running cfg sigReceived, .sys i =>
    match cfg.phase, i with
    | .clis, .next =>
      if sigReceived then destroy cfg.srv else (FtIrc.entries cfg i).map (Entry.map Resource.asset)
    | _, _ => (FtIrc.entries cfg i).map (Entry.map Resource.asset)
  | .running cfg _, .pollError => destroy cfg.srv
  | .returned, _ => []

/-- `main` up to `run`: what is acquired and released, and the process.  An exception of `init` ends it, and the
destructor finds no client and no channel. -/
def launch (argv : List Str) (junk : Int) (a : Setup) : List (Entry Asset) × Process :=
  match argv with
  | [_, port, pass] =>
    if atoi port < 1024 ∨ 65535 < atoi port then ([], .returned)
    else
      let r := init junk a
      match r.thrown with
      | some _ => (r.log ++ [.release (.fd r.fdForNewClis)], .returned)
      | none => (r.log, .running (start pass r.fdForNewClis.toNat) false)
  | _ => ([], .returned)

/-- What the process acquires and releases. -/
def ledger (argv : List Str) (junk : Int) (a : Setup) (calls : List Call) : List (Entry Asset) :=
  (launch argv junk a).1 ++ Runs.trace Process.step Process.entries calls (launch argv junk a).2

/-! ## The failures of `init` -/

/-- The address at which the loop ends. -/
def settles : Attempt → List Attempt → Attempt
  | .noBind _, a :: rest => settles a rest
  | a, _ => a

/-- What the loop leaves open. -/
def Attempt.leaves (held : Finset Asset) : Attempt → Finset Asset
  | .noSocket | .noBind _ => held
  | .noOption fd | .bound fd => insert (.fd fd) held

/-- What the loop leaves in `fdForNewClis`. -/
def Attempt.var : Attempt → Int
  | .noSocket => -1
  | .noOption fd | .noBind fd | .bound fd => fd

theorem post_closed (hno : Asset.fd fd ∉ held) :
    Runs.run post [.acquire (.fd fd), .release (.fd fd)] held = .ok held := by
  refine Runs.run_cons_ok.mpr ⟨_, post_acquire hno, Runs.run_cons_ok.mpr ⟨_, post_release ?_, ?_⟩⟩
  · exact Finset.mem_insert_self _ _
  · rw [Finset.erase_insert hno]
    rfl

/-- **The loop over the addresses**: what counts is where it ends. -/
theorem bindLoop_settles (reason : Str) (hno : ∀ fd : Nat, Asset.fd fd ∉ held) : ∀ (a : Attempt) (rest : List Attempt),
    (bindLoop reason a rest).fdForNewClis = (settles a rest).var ∧
    Runs.run post (bindLoop reason a rest).log held = .ok ((settles a rest).leaves held) ∧
    ((bindLoop reason a rest).thrown = none ↔ ∃ fd, settles a rest = .bound fd)
  | .noSocket, rest => by
    simp only [bindLoop, settles]
    exact ⟨rfl, rfl, by simp⟩
  | .noOption fd, rest => by
    simp only [bindLoop, settles]
    exact ⟨rfl, Runs.run_cons_ok.mpr ⟨_, post_acquire (hno fd), rfl⟩, by simp⟩
  | .bound fd, rest => by
    simp only [bindLoop, settles]
    exact ⟨rfl, Runs.run_cons_ok.mpr ⟨_, post_acquire (hno fd), rfl⟩, by simp⟩
  | .noBind fd, [] => by
    refine ⟨rfl, post_closed (hno fd), ?_⟩
    simp [bindLoop, settles]
  | .noBind fd, a :: rest => by
    obtain ⟨hvar, hlog, hthrown⟩ := bindLoop_settles reason hno a rest
    refine ⟨hvar, ?_, hthrown⟩
    exact (post_append (post_closed (hno fd))).trans hlog

/-- `init`, when there are addresses. -/
theorem init_found {first : Attempt} {rest : List Attempt} {a : Setup} (junk : Int)
    (hfound : a.found = some (first, rest)) :
    (init junk a).fdForNewClis = (settles first rest).var ∧
      ((∃ fd, settles first rest = .bound fd) →
        Runs.run post (init junk a).log ∅ = .ok ((settles first rest).leaves ∅) ∧
          ((init junk a).thrown = none ↔ a.listens = true)) ∧
      ((¬ ∃ fd, settles first rest = .bound fd) →
        Runs.run post (init junk a).log ∅ = .ok ((settles first rest).leaves {.addrs}) ∧
          (init junk a).thrown ≠ none) := by
  have hno : ∀ fd : Nat, Asset.fd fd ∉ ({.addrs} : Finset Asset) := by simp
  have hopen : Runs.run post [Entry.acquire Asset.addrs] ∅ = .ok {.addrs} := rfl
  obtain ⟨hvar, hlog, hthrown⟩ := bindLoop_settles a.reason hno first rest
  have hall := (post_append hopen).trans hlog
  unfold init
  rw [hfound]
  simp only
  cases ht : (bindLoop a.reason first rest).thrown with
  | some msg =>
    rw [ht] at hthrown
    have hnot : ¬ ∃ fd, settles first rest = .bound fd := fun h => by cases hthrown.mpr h
    exact ⟨hvar, fun h => absurd h hnot, fun _ => ⟨hall, by simp⟩⟩
  | none =>
    obtain ⟨fd, hfd⟩ := hthrown.mp ht
    refine ⟨hvar, fun _ => ⟨?_, by cases a.listens <;> simp⟩, fun h => absurd ⟨fd, hfd⟩ h⟩
    rw [hfd] at hall ⊢
    refine (post_append hall).trans (Runs.run_cons_ok.mpr ⟨_, post_release ?_, ?_⟩)
    · simp [Attempt.leaves]
    · rfl

/-- `init` succeeds at an address that it can bind and listen on. -/
theorem init_ok {junk : Int} {a : Setup} (h : (init junk a).thrown = none) :
    ∃ first rest fd, a.found = some (first, rest) ∧ settles first rest = .bound fd ∧ a.listens = true ∧
      (init junk a).fdForNewClis = fd ∧ Runs.run post (init junk a).log ∅ = .ok {.fd fd} := by
  cases hfound : a.found with
  | none =>
    unfold init at h
    rw [hfound] at h
    cases h
  | some found =>
    obtain ⟨first, rest⟩ := found
    obtain ⟨hvar, hbound, hother⟩ := init_found junk hfound
    by_cases hb : ∃ fd, settles first rest = .bound fd
    · obtain ⟨hlog, hthrown⟩ := hbound hb
      obtain ⟨fd, hfd⟩ := hb
      rw [hfd] at hvar hlog
      exact ⟨first, rest, fd, rfl, hfd, hthrown.mp h, hvar, hlog⟩
    · exact absurd h (hother hb).2

/-- The destructor closes `fdForNewClis` after an exception. -/
def afterThrow (junk : Int) (a : Setup) : List (Entry Asset) :=
  (init junk a).log ++ [.release (.fd (init junk a).fdForNewClis)]

/-- **What the destructor makes of a failed start.**  `init` succeeds if an address can be bound, all before it
having failed only at `bind`, and `listen` succeeds; then it leaves the listening descriptor.  If it throws, closing
`fdForNewClis` closes an open descriptor only if the exception is that of `setsockopt` or of `listen`: otherwise
the descriptor is closed for the second time (`bind`), is `-1` (`socket`), or was never set (`getaddrinfo`).  And the
list of addresses is freed only if it is that of `listen`. -/
theorem startup (junk : Int) (a : Setup) :
    ((init junk a).thrown = none ↔ ∃ first rest fd, a.found = some (first, rest) ∧
      settles first rest = .bound fd ∧ a.listens = true) ∧
    ((init junk a).thrown = none → ∃ fd : Nat, (init junk a).fdForNewClis = fd ∧
      Runs.run post (init junk a).log ∅ = .ok {.fd fd}) ∧
    ((init junk a).thrown ≠ none →
      ((∃ held, Runs.run post (afterThrow junk a) ∅ = .ok held) ↔ ∃ first rest fd, a.found = some (first, rest) ∧
        (settles first rest = .noOption fd ∨ settles first rest = .bound fd)) ∧
      (Runs.run post (afterThrow junk a) ∅ = .ok ∅ ↔ ∃ first rest fd, a.found = some (first, rest) ∧
        settles first rest = .bound fd)) := by
  cases hfound : a.found with
  | none =>
    have hinit : init junk a = ⟨[], junk, some (errorText "getaddrinfo" a.reason)⟩ := by
      unfold init
      rw [hfound]
    have hpost : Runs.run post (afterThrow junk a) ∅ = .error (.release (.fd junk)) := by
      unfold afterThrow
      rw [hinit]
      rfl
    rw [hinit, hpost]
    simp
  | some found =>
    obtain ⟨first, rest⟩ := found
    obtain ⟨hvar, hbound, hother⟩ := init_found junk hfound
    have hpost : ∀ held, Runs.run post (init junk a).log ∅ = .ok held →
        Runs.run post (afterThrow junk a) ∅ = Runs.run post [.release (.fd (settles first rest).var)] held := by
      intro held h
      unfold afterThrow
      rw [post_append h, hvar]
    by_cases hb : ∃ fd, settles first rest = .bound fd
    · -- `listen` decides
      obtain ⟨hlog, hthrown⟩ := hbound hb
      obtain ⟨fd, hfd⟩ := hb
      have hclosed := hpost _ hlog
      rw [hfd] at hvar hlog hclosed
      have hempty : Runs.run post (afterThrow junk a) ∅ = .ok ∅ := by
        rw [hclosed]
        refine Runs.run_cons_ok.mpr ⟨_, post_release (Finset.mem_insert_self _ _), ?_⟩
        show Runs.run post [] ((insert (Asset.fd fd) ∅ : Finset Asset).erase (.fd fd)) = _
        rw [Finset.erase_insert (by simp)]
        rfl
      refine ⟨?_, fun _ => ⟨fd, hvar, hlog⟩, fun _ => ⟨?_, ?_⟩⟩
      · rw [hthrown]
        constructor
        · exact fun h => ⟨first, rest, fd, rfl, hfd, h⟩
        · rintro ⟨_, _, _, -, -, h⟩
          exact h
      · exact ⟨fun _ => ⟨first, rest, fd, rfl, .inr hfd⟩, fun _ => ⟨∅, hempty⟩⟩
      · exact ⟨fun _ => ⟨first, rest, fd, rfl, hfd⟩, fun _ => hempty⟩
    · obtain ⟨hlog, hthrown⟩ := hother hb
      have hclosed := hpost _ hlog
      have hnot : ¬ ∃ first' rest' fd, some (first, rest) = some (first', rest') ∧ settles first' rest' = .bound fd := by
        rintro ⟨_, _, fd, he, hfd⟩
        cases he
        exact hb ⟨fd, hfd⟩
      refine ⟨⟨fun h => absurd h hthrown, ?_⟩, fun h => absurd h hthrown, fun _ => ⟨?_, ?_⟩⟩
      · rintro ⟨_, _, fd, he, hfd, -⟩
        exact absurd ⟨_, _, fd, he, hfd⟩ hnot
      · rw [hclosed]
        cases hs : settles first rest with
        | bound fd => exact absurd ⟨fd, hs⟩ hb
        | noOption fd =>
          refine ⟨fun _ => ⟨first, rest, fd, rfl, .inl hs⟩, fun _ => ?_⟩
          exact ⟨_, Runs.run_cons_ok.mpr ⟨_, post_release (Finset.mem_insert_self _ _), rfl⟩⟩
        | noSocket =>
          constructor
          · rintro ⟨held, h⟩
            cases h
          · rintro ⟨_, _, fd, he, h | h⟩ <;>
            · cases he
              rw [hs] at h
              cases h
        | noBind fd =>
          constructor
          · rintro ⟨held, h⟩
            obtain ⟨_, h, -⟩ := Runs.run_cons_ok.mp h
            simp [post, Attempt.leaves, Attempt.var] at h
          · rintro ⟨_, _, fd, he, h | h⟩ <;>
            · cases he
              rw [hs] at h
              cases h
      · refine ⟨fun h => ?_, fun h => absurd h hnot⟩
        -- the list of addresses is not freed
        rw [hclosed] at h
        obtain ⟨t, h, ht⟩ := Runs.run_cons_ok.mp h
        cases ht
        have haddrs : Asset.addrs ∈ (settles first rest).leaves {.addrs} := by
          cases settles first rest <;> simp [Attempt.leaves]
        unfold post at h
        simp only at h
        split at h
        · have he := Except.ok.inj h
          have hin : Asset.addrs ∈ ((settles first rest).leaves {.addrs}).erase (.fd (settles first rest).var) :=
            Finset.mem_erase.mpr ⟨by simp, haddrs⟩
          rw [he] at hin
          cases hin
        · cases h

/-! ## The arguments of `main` -/

/-- `main` accepts a port. -/
def PortOk (port : Str) : Prop := 1024 ≤ atoi port ∧ atoi port ≤ 65535

/-- A numeral is read modulo `2 ^ 32`, and what does not fit a `long` as `-1`. -/
theorem portOk_numeral {port : Str} (h : Numeral port) : PortOk port ↔
    digitsVal port ≤ LONG_MAX ∧ 1024 ≤ digitsVal port % 4294967296 ∧ digitsVal port % 4294967296 ≤ 65535 := by
  unfold PortOk atoi
  rw [strtol_numeral h]
  by_cases hle : (digitsVal port : Int) ≤ LONG_MAX
  · rw [min_eq_right hle]
    unfold toInt32
    simp only
    split <;> omega
  · have hbig : toInt32 (min LONG_MAX (digitsVal port : Int)) = -1 := by
      rw [min_eq_left (by omega)]
      decide
    rw [hbig]
    omega

theorem log_ne_nil (junk : Int) (a : Setup) : (launch argv junk a).1 = [] →
    ∀ name port pass, argv = [name, port, pass] → ¬ PortOk port := by
  rintro hnil name port pass rfl ⟨hlow, hhigh⟩
  unfold launch at hnil
  simp only [show ¬ (atoi port < 1024 ∨ 65535 < atoi port) by omega, if_false] at hnil
  cases hthrown : (init junk a).thrown with
  | some msg => simp [hthrown] at hnil
  | none =>
    simp only [hthrown] at hnil
    obtain ⟨_, _, fd, -, -, -, -, hlog⟩ := init_ok hthrown
    rw [hnil] at hlog
    have he := Except.ok.inj hlog
    exact absurd (he ▸ Finset.mem_singleton_self (Asset.fd fd)) (Finset.notMem_empty _)

/-- **When `main` starts the server**: it touches nothing unless there are two arguments and `atoi` reads the first as
a port; of the numerals these are those whose value modulo `2 ^ 32` is a port, if the value fits a `long`. -/
theorem main_starts (argv : List Str) (junk : Int) (a : Setup) :
    ((launch argv junk a).1 = [] ↔ ∀ name port pass, argv = [name, port, pass] → ¬ PortOk port) ∧
    ∀ port, Numeral port → (PortOk port ↔ digitsVal port ≤ LONG_MAX ∧ 1024 ≤ digitsVal port % 4294967296 ∧
      digitsVal port % 4294967296 ≤ 65535) := by
  refine ⟨⟨log_ne_nil junk a, fun hno => ?_⟩, fun port h => portOk_numeral h⟩
  unfold launch
  split
  · rename_i name port pass
    have hport : ¬ PortOk port := hno _ _ _ rfl
    unfold PortOk at hport
    rw [if_pos (by omega)]
  · rfl

/-! ## The steps of the process -/

/-- The process is before a step of `run` that could be made without signals and errors of `poll`. -/
def Process.Sound (pass : Str) (lfd : Nat) : Process → Prop
  | .running cfg _ => Reachable pass lfd cfg
  | .returned => True

def Process.assets : Process → Finset Asset
  | .running cfg _ => cfg.srv.held.image Resource.asset
  | .returned => ∅

/-- The exits of `run`: a signal has been seen at the top of the loop, or `poll` has failed. -/
def Leaves (cfg : Config) (sig : Bool) (call : Call) : Prop :=
  (call = .sys .next ∧ cfg.phase = .clis ∧ sig = true) ∨ (call = .pollError ∧ cfg.phase = .poll)

/-- **Inversion of `Process.step`.** -/
theorem Process.step_cases {p p' : Process} {call : Call} (h : Process.step p call = .ok p') :
    ∃ cfg sig, p = .running cfg sig ∧
      ((call = .signal ∧ p' = .running cfg true ∧ Process.entries p call = []) ∨
      (∃ i cfg', call = .sys i ∧ FtIrc.step cfg i = .ok cfg' ∧ p' = .running cfg' sig ∧
        Process.entries p call = (FtIrc.entries cfg i).map (Entry.map Resource.asset)) ∨
      (Leaves cfg sig call ∧ p' = .returned ∧ Process.entries p call = destroy cfg.srv)) := by
  cases p with
  | returned => cases h
  | running cfg sig =>
    refine ⟨cfg, sig, rfl, ?_⟩
    cases call with
    | signal =>
      cases h
      exact .inl ⟨rfl, rfl, rfl⟩
    | pollError =>
      unfold Process.step at h
      simp only at h
      split at h
      · rename_i hphase
        cases h
        exact .inr (.inr ⟨.inr ⟨rfl, hphase⟩, rfl, rfl⟩)
      · cases h
    | sys i =>
      unfold Process.step at h
      simp only at h
      split at h
      · rename_i hphase
        split at h
        · rename_i hsig
          cases h
          refine .inr (.inr ⟨.inl ⟨rfl, hphase, hsig⟩, rfl, ?_⟩)
          unfold Process.entries
          simp only [hphase, hsig, if_true]
        · rename_i hsig
          obtain ⟨cfg', hstep, h⟩ := bind_ok_iff.mp h
          cases h
          refine .inr (.inl ⟨.next, cfg', rfl, hstep, rfl, ?_⟩)
          unfold Process.entries
          simp only [hphase, hsig, Bool.false_eq_true, if_false]
      · rename_i hno
        obtain ⟨cfg', hstep, h⟩ := bind_ok_iff.mp h
        cases h
        refine .inr (.inl ⟨_, cfg', rfl, hstep, rfl, ?_⟩)
        unfold Process.entries
        simp only

theorem Process.Sound.step {p p' : Process} {call : Call} (hp : p.Sound pass lfd) (h : Process.step p call = .ok p') :
    p'.Sound pass lfd := by
  obtain ⟨cfg, sig, rfl, ⟨-, rfl, -⟩ | ⟨i, cfg', -, hstep, rfl, -⟩ | ⟨-, rfl, -⟩⟩ := Process.step_cases h
  · exact hp
  · exact Reachable.step hp hstep
  · trivial

theorem asset_injective : Function.Injective Resource.asset := by
  intro a b h
  cases a <;> cases b <;> cases h <;> rfl

/-- The destructor releases what the server holds, once. -/
theorem destroy_posts (hr : Reachable pass lfd cfg) :
    Runs.run post (destroy cfg.srv) (cfg.srv.held.image Resource.asset) = .ok ∅ := by
  have hb := hr.bookkept.1
  have hl : cfg.srv.fdForNewClis ∉ cfg.srv.clis := by
    rw [hb.listener]
    exact hb.closed
  have hnodup := (nodup_holdings hr.good.inv hl).map asset_injective
  have hlog : destroy cfg.srv = (cfg.srv.holdings.map Resource.asset).map .release := by
    unfold destroy
    rw [List.map_map]
    rfl
  have himage : cfg.srv.held.image Resource.asset = (cfg.srv.holdings.map Resource.asset).toFinset := by
    ext r
    simp [held]
  rw [hlog, himage, post_releases _ _ hnodup fun a ha => List.mem_toFinset.mpr ha, Finset.sdiff_self]

/-- **What a step of the process acquires and releases** makes of what it holds what it holds afterwards. -/
theorem Process.posts {p p' : Process} {call : Call} (hp : p.Sound pass lfd) (h : Process.step p call = .ok p') :
    Runs.run post (Process.entries p call) p.assets = .ok p'.assets := by
  obtain ⟨cfg, sig, rfl, ⟨-, rfl, he⟩ | ⟨i, cfg', -, hstep, rfl, he⟩ | ⟨-, rfl, he⟩⟩ := Process.step_cases h
  · rw [he]
    rfl
  · rw [he]
    have hr : Reachable pass lfd cfg := hp
    exact post_map asset_injective _ _ _ ((move_of_step hstep).posts hr.good hr.bookkept.1)
  · rw [he]
    exact destroy_posts hp

/-! ## The whole process -/

theorem assets_start (pass : Str) (lfd : Nat) : (Process.running (start pass lfd) false).assets = {.fd lfd} := by
  have hheld : (start pass lfd).srv.held = {.fd lfd} := by
    have hnone : ∀ c, c ∉ (start pass lfd).srv.clients := by
      intro c hc
      obtain ⟨fd, hfd⟩ := mem_clients.mp hc
      simp [start] at hfd
    ext r
    rw [Finset.mem_singleton]
    cases r with
    | fd fd =>
      rw [fd_mem_held, Resource.fd.injEq]
      exact or_iff_left ExtTreeMap.not_mem_empty
    | cli p =>
      rw [cli_mem_held]
      simp [hnone]
    | ch k =>
      rw [ch_mem_held]
      simp [start]
  show (start pass lfd).srv.held.image Resource.asset = _
  rw [hheld, Finset.image_singleton]
  rfl

theorem launch_ok (argv : List Str) {junk : Int} {a : Setup} (h : (init junk a).thrown = none) :
    ∃ pass lfd, (launch argv junk a).2.Sound pass lfd ∧
      Runs.run post (launch argv junk a).1 ∅ = .ok (launch argv junk a).2.assets := by
  unfold launch
  split
  · rename_i port pass
    split
    · exact ⟨pass, 0, trivial, rfl⟩
    · obtain ⟨_, _, fd, -, -, -, hfd, hlog⟩ := init_ok h
      simp only [h, hfd, Int.toNat_natCast]
      exact ⟨pass, fd, ⟨[], rfl⟩, by rw [hlog, assets_start]⟩
  · exact ⟨[], 0, trivial, rfl⟩

/-- **The process gives back what it acquires.**  When `init` has succeeded, then at every moment of the process,
whatever the kernel answers and the clients send, what it has acquired and released can be posted: nothing is closed
or deleted twice, or without having been acquired.  What it holds is what the server holds; and when `main` has
returned, after a signal or an error of `poll`, it holds nothing: every descriptor and every object was acquired as
often as released. -/
theorem gives_back {argv : List Str} {junk : Int} {a : Setup} {calls : List Call} {p : Process}
    (hinit : (init junk a).thrown = none) (hrun : Runs.run Process.step calls (launch argv junk a).2 = .ok p) :
    Runs.run post (ledger argv junk a calls) ∅ = .ok p.assets ∧
    (p = .returned → ∀ x, (ledger argv junk a calls).count (.acquire x) =
      (ledger argv junk a calls).count (.release x)) := by
  obtain ⟨pass, lfd, hsound, hlog⟩ := launch_ok argv hinit
  have hone : ∀ log q call q', (q.Sound pass lfd ∧ Runs.run post ((launch argv junk a).1 ++ log) ∅ = .ok q.assets) →
      Process.step q call = .ok q' → q'.Sound pass lfd ∧
        Runs.run post ((launch argv junk a).1 ++ (log ++ Process.entries q call)) ∅ = .ok q'.assets := by
    rintro log q call q' ⟨hq, hposted⟩ hstep
    refine ⟨hq.step hstep, ?_⟩
    rw [← List.append_assoc]
    exact (post_append hposted).trans (Process.posts hq hstep)
  have hall : Runs.run post (ledger argv junk a calls) ∅ = .ok p.assets :=
    (Runs.trace_invariant hone calls _ p ⟨hsound, by rw [List.append_nil]; exact hlog⟩ hrun).2
  refine ⟨hall, ?_⟩
  rintro rfl x
  have hcount := count_acquire (a := x) _ _ _ hall
  simpa [Process.assets] using hcount

/-! ## Signals -/

/-- How many steps there are to the next test of `sigReceived`, at most. -/
def Config.rank (cfg : Config) : Nat :=
  match cfg.phase with
  | .clis => 1
  | .chs => 5 + 173 * cfg.srv.polls.length
  | .mark => 4 + 173 * cfg.srv.polls.length
  | .poll => 3 + 173 * cfg.srv.polls.length
  | .events todo => 2 + 173 * todo.length
  | .cmds _ lines todo => 3 + lines.length + 173 * todo.length

def Process.rank : Process → Nat
  | .running cfg _ => cfg.rank
  | .returned => 0

theorem length_markPolls (s : Server) : s.markPollsToSendMsgsTo.polls.length = s.polls.length := by
  have hfds := congrArg List.length (map_fd_markPolls s.clis.toList s.polls)
  unfold markPollsToSendMsgsTo
  simpa using hfds

theorem step_toTop {i : Input} (hr : Reachable pass lfd cfg) (htop : cfg.phase ≠ .clis) (h : step cfg i = .ok cfg') :
    cfg'.rank < cfg.rank := by
  have hI : Inv cfg.srv := hr.good.inv
  have hlower : i.isPoll = false → cfg'.phase.rank < cfg.phase.rank := fun hi => step_rank hr hi h
  obtain ⟨s, phase⟩ := cfg
  obtain ⟨s', phase'⟩ := cfg'
  have hmove : Move s phase i s' phase' := move_of_step h
  cases hmove with
  | clis => exact absurd rfl htop
  | chs s' freed hs =>
    rw [eraseUnusedChs_ok hI] at hs
    cases hs
    show 4 + 173 * s.polls.length < 5 + 173 * s.polls.length
    omega
  | mark =>
    have hlen := length_markPolls s
    show 3 + 173 * s.markPollsToSendMsgsTo.polls.length < 4 + 173 * s.polls.length
    omega
  | poll rs hrs _ =>
    show 2 + 173 * ((s.polls.map (·.fd)).zip rs).length < 3 + 173 * s.polls.length
    rw [List.length_zip, List.length_map, hrs, Nat.min_self]
    omega
  | recv fd r todo c chunk s' lines _ hc hne hs =>
    have hone : 5 + lines.length + 173 * todo.length < 4 + 173 * (todo.length + 1) := hlower rfl
    show 3 + lines.length + 173 * todo.length < 2 + 173 * (todo.length + 1)
    omega
  | _ =>
    simp only [Config.rank, List.length_cons, List.length_nil]
    omega

/-- Not a signal. -/
def Call.quiet (call : Call) : Prop := call ≠ .signal

/-- **Once `sigReceived` is set, every step comes nearer to the end.** -/
theorem signalled_lower (pass : Str) (lfd : Nat) :
    Runs.Lowers Process.step
      (fun p => p.Sound pass lfd ∧ ∀ cfg sig, p = .running cfg sig → sig = true) Call.quiet Process.rank := by
  constructor
  · rintro p call p' ⟨hp, hsig⟩ hq hstep
    refine ⟨hp.step hstep, fun cfg' sig' he => ?_⟩
    obtain ⟨cfg, sig, rfl, ⟨hs, -⟩ | ⟨i, cfg'', -, -, rfl, -⟩ | ⟨-, rfl, -⟩⟩ := Process.step_cases hstep
    · exact absurd hs hq
    · cases he
      exact hsig cfg sig' rfl
    · cases he
  · rintro p call p' ⟨hp, hsig⟩ hq hstep
    obtain ⟨cfg, sig, rfl, ⟨hs, -⟩ | ⟨i, cfg', rfl, hone, rfl, -⟩ | ⟨hl, rfl, -⟩⟩ := Process.step_cases hstep
    · exact absurd hs hq
    · have htop : cfg.phase ≠ .clis := by
        intro htop
        obtain rfl := hsig cfg sig rfl
        obtain ⟨s, phase⟩ := cfg
        subst htop
        obtain ⟨s', phase'⟩ := cfg'
        have hmove : Move s .clis i s' phase' := move_of_step hone
        cases hmove
        cases hstep
      exact step_toTop hp htop hone
    · show 0 < cfg.rank
      rcases hl with ⟨-, htop, -⟩ | ⟨-, hpoll⟩
      · simp [Config.rank, htop]
      · simp [Config.rank, hpoll]

/-- Where a process stops that has received a signal. -/
theorem signalled_stuck {p : Process} (hp : p.Sound pass lfd) (hsig : ∀ cfg sig, p = .running cfg sig → sig = true)
    (hstuck : Runs.Stuck Process.step Call.quiet p) :
    p = .returned ∨ ∃ cfg sig, p = .running cfg sig ∧ AtUnsafe cfg := by
  cases p with
  | returned => exact .inl rfl
  | running cfg sig =>
    obtain rfl := hsig cfg sig rfl
    refine .inr ⟨cfg, true, rfl, ?_⟩
    have hr : Reachable pass lfd cfg := hp
    have hphase : cfg.phase ≠ .clis ∧ cfg.phase ≠ .poll := by
      constructor
      · intro hphase
        refine hstuck (.sys .next) .returned (by simp [Call.quiet]) ?_
        unfold Process.step
        simp only [hphase, if_true]
      · intro hphase
        refine hstuck .pollError .returned (by simp [Call.quiet]) ?_
        unfold Process.step
        simp only [hphase]
    refine ((stuck_iff hr).mp fun i cfg' _ hstep => ?_).resolve_left hphase.2
    refine hstuck (.sys i) (.running cfg' true) (by simp [Call.quiet]) ?_
    unfold Process.step
    simp only
    split
    · rename_i htop _
      exact absurd htop hphase.1
    · rw [hstep]
      rfl

/-- `polls` changes its length only where clients are accepted or removed. -/
theorem Move.length_polls {s s' : Server} {phase phase' : Phase} {i : Input} (h : Move s phase i s' phase')
    (hg : Good ⟨s, phase⟩) : phase = .clis ∨ phase' = .clis ∨ s'.polls.length = s.polls.length := by
  have hI : Inv s := hg.inv
  cases h with
  | clis => exact .inl rfl
  | again | acceptError | accept => exact .inr (.inl rfl)
  | chs s' freed hs =>
    rw [eraseUnusedChs_ok hI] at hs
    cases hs
    exact .inr (.inr rfl)
  | mark => exact .inr (.inr (length_markPolls s))
  | recv fd r todo c chunk s' lines _ hc _ hs =>
    rw [receiveBuf_ok hI (cliAt_of_clis hI hc)] at hs
    cases hs
    exact .inr (.inr rfl)
  | send fd r todo c n d s' _ _ hc _ _ hs =>
    rw [sendPreparedResps_eq hI (cliAt_of_clis hI hc)] at hs
    cases hs
    have hfds := congrArg List.length (map_fd_pollsSent (s := s) (c := c) n)
    rw [List.length_map, List.length_map] at hfds
    exact .inr (.inr hfds)
  | cmd x line lines todo s' hs =>
    obtain ⟨⟨c, hc⟩, -⟩ := hg.author x (line :: lines) todo rfl
    obtain ⟨u, -, rfl, -, -, hsteps⟩ := execLine_run hI hc hs
    exact .inr (.inr (congrArg List.length hsteps.sameServer.polls))
  | _ => exact .inr (.inr rfl)

/-- How far it is to the next test of `sigReceived`. -/
theorem Reachable.rank_le (hr : Reachable pass lfd cfg) : cfg.rank ≤ 178 + 173 * cfg.srv.clis.size := by
  have hinv : cfg.rank ≤ 5 + 173 * cfg.srv.polls.length := by
    refine hr.invariant (I := fun t => t.rank ≤ 5 + 173 * t.srv.polls.length) ?_ fun cfg i cfg' hr hle hstep => ?_
    · show 1 ≤ _
      omega
    · have htop : cfg.phase ≠ .clis → cfg'.rank < cfg.rank := fun hphase => step_toTop hr hphase hstep
      obtain ⟨s, phase⟩ := cfg
      obtain ⟨s', phase'⟩ := cfg'
      have hmove : Move s phase i s' phase' := move_of_step hstep
      rcases hmove.length_polls hr.good with rfl | rfl | hlen
      · cases hmove with
        | clis => exact Nat.le_refl _
      · show 1 ≤ _
        omega
      · by_cases hphase : phase = .clis
        · subst hphase
          cases hmove with
          | clis => exact Nat.le_refl _
        · have hless := htop hphase
          show Config.rank _ ≤ 5 + 173 * s'.polls.length
          simp only at hle
          omega
  have hlen := hr.length_polls
  omega

/-- **After a signal `main` returns**: with `n` clients connected, within `178 + 173 * n` steps of the process, whatever
the kernel answers and the clients send, unless it comes to a command that uses a null pointer. -/
theorem ends_after_signal {calls more : List Call} {p : Process}
    (hrun : Runs.run Process.step calls (.running (start pass lfd) false) = .ok (.running cfg true))
    (hquiet : ∀ call ∈ more, call ≠ .signal) (hmore : Runs.run Process.step more (.running cfg true) = .ok p) :
    ∃ rest q, (∀ call ∈ rest, call ≠ .signal) ∧ Runs.run Process.step rest p = .ok q ∧
      more.length + rest.length ≤ 178 + 173 * cfg.srv.clis.size ∧
      (q = .returned ∨ ∃ cfg' sig, q = .running cfg' sig ∧ AtUnsafe cfg') := by
  have hfirst : (Process.running (start pass lfd) false).Sound pass lfd := ⟨[], rfl⟩
  have hr : (Process.running cfg true).Sound pass lfd :=
    Runs.run_invariant (fun p call p' hp hstep => hp.step hstep) calls _ _ hfirst hrun
  have hsig : ∀ cfg' sig, Process.running cfg true = .running cfg' sig → sig = true := by
    rintro cfg' sig he
    cases he
    rfl
  have hl := signalled_lower pass lfd
  obtain ⟨hp, -⟩ := hl.run more _ p ⟨hr, hsig⟩ hquiet hmore
  obtain ⟨rest, q, hrest, hrun', hstuck⟩ := hl.exists_stuck p hp
  have hall : ∀ call ∈ more ++ rest, call.quiet := by
    intro call hcall
    rcases List.mem_append.mp hcall with hcall | hcall
    · exact hquiet call hcall
    · exact hrest call hcall
  obtain ⟨hq, hlen⟩ := hl.run (more ++ rest) _ q ⟨hr, hsig⟩ hall (Runs.run_append_ok.mpr ⟨p, hmore, hrun'⟩)
  have hbound : cfg.rank ≤ 178 + 173 * cfg.srv.clis.size := Reachable.rank_le hr
  refine ⟨rest, q, hrest, hrun', ?_, signalled_stuck hq.1 hq.2 hstuck⟩
  have hrank : (Process.running cfg true).rank = cfg.rank := rfl
  rw [List.length_append] at hlen
  omega

/-! ## Runs -/

/-- Evaluate a run of the process. -/
theorem exists_process (p : Process) (calls : List Call) (P : Process → Bool)
    (h : (match Runs.run Process.step calls p with
      | .ok q => P q
      | .error _ => false) = true) : ∃ q, Runs.run Process.step calls p = .ok q ∧ P q = true := by
  cases hrun : Runs.run Process.step calls p with
  | error e =>
    rw [hrun] at h
    cases h
  | ok q =>
    rw [hrun] at h
    exact ⟨q, rfl, h⟩

def secondAddress : Setup := ⟨some (.noBind 3, [.bound 3]), true, []⟩

def arguments : List Str := [str "ircserv", str "6667", str "2"]

/-- A client joins a channel; a signal arrives while its commands are executed. -/
def interrupted : List Call :=
  (connect 0 alice ++ say 0 0 2 (register "al" ++ str "JOIN #c\r\n")).map .sys ++ [.signal]

/-- The end of the iteration, and of the process. -/
def interruptedEnd : List Call := List.replicate 3 (.sys .next)

theorem gives_back_interrupted : ∃ p,
    Runs.run Process.step (interrupted ++ interruptedEnd) (launch arguments 0 secondAddress).2 = .ok p ∧
    Runs.run post (ledger arguments 0 secondAddress (interrupted ++ interruptedEnd)) ∅ = .ok p.assets ∧
    ∀ x, (ledger arguments 0 secondAddress (interrupted ++ interruptedEnd)).count (.acquire x) =
      (ledger arguments 0 secondAddress (interrupted ++ interruptedEnd)).count (.release x) := by
  obtain ⟨p, hrun, hP⟩ := exists_process (launch arguments 0 secondAddress).2 (interrupted ++ interruptedEnd)
    (fun p => match p with | .returned => true | .running _ _ => false) (by decide +kernel)
  obtain ⟨hpost, hcount⟩ := gives_back (by rfl) hrun
  cases p with
  | returned => exact ⟨_, hrun, hpost, hcount rfl⟩
  | running cfg sig => cases hP

theorem ends_after_signal_interrupted : ∃ cfg rest q,
    Runs.run Process.step interrupted (.running (start (str "2") 3) false) = .ok (.running cfg true) ∧
    Runs.run Process.step rest (.running cfg true) = .ok q ∧ rest.length ≤ 178 + 173 * cfg.srv.clis.size ∧
    (q = .returned ∨ ∃ cfg' sig, q = .running cfg' sig ∧ AtUnsafe cfg') := by
  obtain ⟨p, hrun, hP⟩ := exists_process (.running (start (str "2") 3) false) interrupted
    (fun p => match p with | .returned => false | .running _ sig => sig) (by decide +kernel)
  cases p with
  | returned => cases hP
  | running cfg sig =>
    obtain rfl : sig = true := hP
    have hquiet : ∀ call ∈ ([] : List Call), call ≠ .signal := fun _ hcall => absurd hcall List.not_mem_nil
    obtain ⟨rest, q, -, hrest, hlen, hq⟩ := ends_after_signal hrun hquiet rfl
    rw [List.length_nil, Nat.zero_add] at hlen
    exact ⟨cfg, rest, q, hrun, hrest, hlen, hq⟩

end FtIrc
