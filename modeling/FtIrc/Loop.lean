import FtIrc.Lib.Runs
import FtIrc.Mode

/-!
# The main loop

`Server::run` and the functions it calls, as a machine driven by the operating system: one
configuration is the server and the place where `run` stands (`Phase`), one input is what the
kernel answers there (`Input`).

* `eraseUnusedClis`, `eraseUnusedChs`, `markPollsToSendMsgsTo` — the cleanup before `poll`.
* `addNewClient`, `sendPreparedResps`, `receiveBuf` — the three events of a descriptor.
* `step` — one transition; an input the kernel cannot give there is `Halt.disabled`.

The commands found in a received buffer are executed one per step, so that the states between
them are configurations as well.
-/

namespace FtIrc

open Std

namespace Server

/-! ## Cleanup -/

/-- The inner loop of `eraseUnusedClis`, over the channels. -/
def eraseFromChs (nick : Str) : List Str → Server → Except Fault Server
  | [], s => .ok s
  | k :: ks, s => do
    let s ← s.eraseCliFromCh nick k
    eraseFromChs nick ks s

/-- Remove the first entry of a descriptor from `polls`. -/
def erasePoll (s : Server) (fd : Nat) : Server :=
  { s with polls := s.polls.eraseP (·.fd = fd) }

/-- The body of the loop of `eraseUnusedClis`: the new state, and whether `fd` was removed. -/
def eraseUnusedCli (s : Server) (fd : Nat) : Except Fault (Server × Bool) :=
  match s.clis[fd]? with
  | some c =>
    if c.bufToSend = [] then do
      let s ← eraseFromChs c.nick s.chs.keys s
      .ok ({ s with clis := s.clis.erase fd }.erasePoll fd, true)
    else .ok (s, false)
  | none => .ok (s.erasePoll fd, true)

/-- The loop of `eraseUnusedClis`, with the descriptors really removed. -/
def eraseClisLoop : List Nat → Server → Except Fault (Server × List Nat)
  | [], s => .ok (s, [])
  | fd :: fds, s => do
    let (s, removed) ← s.eraseUnusedCli fd
    let (s, rest) ← eraseClisLoop fds s
    .ok (s, if removed then fd :: rest else rest)

/-- `eraseUnusedClis`. -/
def eraseUnusedClis (s : Server) : Except Fault Server := do
  let (s, removed) ← eraseClisLoop s.fdsToErase.toList s
  .ok { s with fdsToErase := removed.foldl (fun fds fd => fds.erase fd) s.fdsToErase }

/-- `delete getCh(chName); chs.erase(chName)`: the key of the entry whose object is freed.  When
it is another entry, that entry is left with a dangling `Ch*`. -/
def eraseCh (s : Server) (chName : Str) : Except Fault (Server × ChRef) :=
  let freed := s.getCh chName
  if freed = none ∨ freed = some chName then
    .ok ({ s with chs := s.chs.erase chName }, freed)
  else .error .danglingCh

/-- The second loop of `eraseUnusedChs`, with the objects freed. -/
def eraseChsLoop : List Str → Server → Except Fault (Server × List ChRef)
  | [], s => .ok (s, [])
  | k :: ks, s => do
    let (s, freed) ← s.eraseCh k
    let (s, rest) ← eraseChsLoop ks s
    .ok (s, freed :: rest)

/-- The channels without a member, in the order of iteration. -/
def unusedChs (s : Server) : List Str :=
  (s.chs.toList.filter fun e => e.2.size = 0).map (·.1)

/-- `eraseUnusedChs`, with the objects freed. -/
def eraseUnusedChs (s : Server) : Except Fault (Server × List ChRef) :=
  eraseChsLoop s.unusedChs s

/-- Set `events` of the first entry of a descriptor. -/
def setEvents (fd : Nat) (ev : Events) : List Pollfd → List Pollfd
  | [] => []
  | p :: ps => if p.fd = fd then { p with events := ev } :: ps else p :: setEvents fd ev ps

/-- `markPollsToSendMsgsTo`. -/
def markPollsToSendMsgsTo (s : Server) : Server :=
  { s with
    polls := s.clis.toList.foldl
      (fun ps e => if 0 < e.2.bufToSend.length then setEvents e.1 .pollout ps else ps) s.polls }

/-! ## Events -/

/-- A connection as `accept` returns it, and the address `new` gives its record. -/
structure Conn where
  fd : Nat
  addr : Ptr
  ip : UInt8 × UInt8 × UInt8 × UInt8
  deriving DecidableEq, Repr

/-- The decimal digits of a byte, without leading zeros. -/
def octet (b : UInt8) : Str :=
  let n := b.toNat
  let digit (k : Nat) : UInt8 := UInt8.ofNat (48 + k % 10)
  if n < 10 then [digit n]
  else if n < 100 then [digit (n / 10), digit n]
  else [digit (n / 100), digit (n / 10), digit n]

/-- `inet_ntoa`. -/
def inetNtoa (ip : UInt8 × UInt8 × UInt8 × UInt8) : Str :=
  octet ip.1 ++ str "." ++ octet ip.2.1 ++ str "." ++ octet ip.2.2.1 ++ str "." ++ octet ip.2.2.2

/-- `addNewClient`, when `accept` returns a connection. -/
def addNewClient (s : Server) (conn : Conn) : Server :=
  { s with
    clis := s.clis.insert conn.fd (Cli.new conn.addr conn.fd (inetNtoa conn.ip))
    polls := s.polls ++ [⟨conn.fd, .pollin⟩] }

/-- The largest `ssize_t`. -/
def SSIZE_MAX : Int := 9223372036854775807

/-- Conversion of a `ssize_t` to `size_t`. -/
def toSizeT (n : Int) : Nat := (n % 18446744073709551616).toNat

/-- `sendPreparedResps(to)`, when `send` returns `n`. -/
def sendPreparedResps (s : Server) (toCli : Ptr) (n : Int) : Except Fault Server := do
  let c ← s.deref toCli
  let accepted := c.bufToSend.take n.toNat
  let s := s.updCli toCli fun c =>
    { c with hist := { c.hist with accepted := c.hist.accepted ++ accepted } }
  if n = c.bufToSend.length then
    .ok { s.updCli toCli fun c => { c with bufToSend := [] } with
      polls := s.polls.map fun p => if p.fd = c.fd then { p with events := .pollin } else p }
  else
    .ok (s.updCli toCli fun c => { c with bufToSend := c.bufToSend.drop (toSizeT n) })

/-- `receiveBufAndExecCmds` up to its loop: the received bytes are put behind `bufRecv` and cut
into commands. -/
def receiveBuf (s : Server) (cli : Ptr) (chunk : Str) : Except Fault (Server × List Str) := do
  let c ← s.deref cli
  let (cmds, bufRecv) := splitBufToCmds c.bufRecv (c.bufRecv ++ chunk)
  .ok (s.updCli cli fun c => { c with bufRecv := bufRecv }, cmds)

/-- Record a command in the history of its author. -/
def note (s : Server) (cli : Ptr) (ar : List Str) : Server :=
  s.updCli cli fun c => { c with hist := { c.hist with cmds := c.hist.cmds ++ [ar] } }

/-- The body of the loop of `receiveBufAndExecCmds`. -/
def execLine (s : Server) (cli : Ptr) (line : Str) : Except Fault Server := do
  let s ← s.execCmd cli (splitCmdToArgs line)
  .ok (s.note cli (splitCmdToArgs line))

/-- `clis.at(fd)`. -/
def cliOfFd (s : Server) (fd : Nat) : Except Fault Ptr :=
  match s.clis[fd]? with
  | some c => .ok c.addr
  | none => .error .outOfRange

end Server

/-! ## The machine -/

/-- `pollfd::revents`, as far as the program looks at it. -/
structure Revents where
  pollin : Bool
  pollout : Bool
  deriving DecidableEq, Repr

/-- Where `run` stands. -/
inductive Phase where
  /-- at `eraseUnusedClis()` -/
  | clis
  /-- at `eraseUnusedChs()` -/
  | chs
  /-- at `markPollsToSendMsgsTo()` -/
  | mark
  /-- at the call of `poll` -/
  | poll
  /-- in the loop over `polls`: the entries still to come -/
  | events (todo : List (Nat × Revents))
  /-- in the loop over the commands of the client `cli` -/
  | cmds (cli : Ptr) (lines : List Str) (todo : List (Nat × Revents))

structure Config where
  srv : Server
  phase : Phase

/-- What `recv` returns. -/
inductive Recv where
  | error
  | closed
  | data (chunk : Str)
  deriving DecidableEq, Repr

inductive Input where
  /-- nothing is asked of the kernel -/
  | next
  | poll (revents : List Revents)
  | accept (conn : Option Server.Conn)
  | recv (r : Recv)
  | send (n : Int)
  deriving DecidableEq, Repr

inductive Halt where
  /-- the kernel does not answer so here -/
  | disabled
  | fault (f : Fault)
  deriving DecidableEq, Repr

/-- A fault of the program stops the machine. -/
def liftFault {α : Type} : Except Fault α → Except Halt α
  | .ok a => .ok a
  | .error f => .error (.fault f)

/-- `poll` reports `POLLIN` and `POLLOUT` only where they were asked for. -/
def pollContract (p : Pollfd) (r : Revents) : Bool :=
  (r.pollin → p.events = .pollin) ∧ (r.pollout → p.events = .pollout)

/-- `accept` returns a descriptor that is not open, `new` an address that is not in use. -/
def acceptContract (s : Server) (conn : Server.Conn) : Bool :=
  conn.fd ∉ s.clis ∧ conn.fd ≠ s.fdForNewClis ∧ conn.addr ≠ NULL ∧ s.cliAt conn.addr = none

/-- One transition. -/
def step (cfg : Config) (i : Input) : Except Halt Config :=
  let s := cfg.srv
  match cfg.phase, i with
  | .clis, .next => do
    let s ← liftFault s.eraseUnusedClis
    .ok ⟨s, .chs⟩
  | .chs, .next => do
    let (s, _) ← liftFault s.eraseUnusedChs
    .ok ⟨s, .mark⟩
  | .mark, .next => .ok ⟨s.markPollsToSendMsgsTo, .poll⟩
  | .poll, .poll rs =>
    if rs.length = s.polls.length ∧ ∀ e ∈ s.polls.zip rs, pollContract e.1 e.2 then
      .ok ⟨s, .events ((s.polls.map (·.fd)).zip rs)⟩
    else .error .disabled
  | .events [], .next => .ok ⟨s, .clis⟩
  | .events ((fd, r) :: todo), i =>
    if r.pollin ∧ fd = s.fdForNewClis then
      match i with
      | .accept none => .ok ⟨s, .clis⟩
      | .accept (some conn) =>
        if acceptContract s conn then .ok ⟨s.addNewClient conn, .clis⟩ else .error .disabled
      | _ => .error .disabled
    else if r.pollin then do
      let cli ← liftFault (s.cliOfFd fd)
      match i with
      | .recv .error => .ok ⟨s, .events todo⟩
      | .recv .closed => do
        let c ← liftFault (s.deref cli)
        .ok ⟨s.markToErase c.fd, .events todo⟩
      | .recv (.data chunk) =>
        if chunk ≠ [] ∧ chunk.length ≤ BUFSIZE - 1 then do
          let (s, lines) ← liftFault (s.receiveBuf cli chunk)
          .ok ⟨s, .cmds cli lines todo⟩
        else .error .disabled
      | _ => .error .disabled
    else if r.pollout then do
      let cli ← liftFault (s.cliOfFd fd)
      let c ← liftFault (s.deref cli)
      match i with
      | .send n =>
        if n = -1 ∨ (0 ≤ n ∧ n ≤ c.bufToSend.length ∧ n ≤ Server.SSIZE_MAX) then do
          let s ← liftFault (s.sendPreparedResps cli n)
          .ok ⟨s, .events todo⟩
        else .error .disabled
      | _ => .error .disabled
    else
      match i with
      | .next => .ok ⟨s, .events todo⟩
      | _ => .error .disabled
  | .cmds _ [] todo, .next => .ok ⟨s, .events todo⟩
  | .cmds cli (line :: lines) todo, .next => do
    let s ← liftFault (s.execLine cli line)
    .ok ⟨s, .cmds cli lines todo⟩
  | _, _ => .error .disabled

/-- The server after `init`, at the top of the loop of `run`. -/
def start (pass : Str) (fdForNewClis : Nat) : Config where
  srv :=
    { pass := pass
      fdForNewClis := fdForNewClis
      polls := [⟨fdForNewClis, .pollin⟩]
      clis := ∅
      chs := ∅
      fdsToErase := ∅ }
  phase := .clis

/-- The configuration a run of the server leads to. -/
def runServer (pass : Str) (fdForNewClis : Nat) (is : List Input) : Except Halt Config :=
  Runs.run step is (start pass fdForNewClis)

/-- A configuration some run leads to. -/
def Reachable (pass : Str) (fdForNewClis : Nat) (cfg : Config) : Prop :=
  ∃ is, runServer pass fdForNewClis is = .ok cfg

end FtIrc
