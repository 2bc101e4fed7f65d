import FtIrc.Text

/-!
# The state of the server

`Cli`, `Ch` and `Server` of `Server.hpp`, with the heap made explicit where the program can go
wrong:

* a `Cli*` is an address (`Ptr`, `NULL = 0`); the objects are owned by the entries of `clis`, so
  an address that belongs to no entry is dangling (`deref`);
* a `Ch*` is named by the key of the entry of `chs` that owns the object, `none` being `NULL`;
* `chs[chName]` on a missing key stores a null `Ch*` (`chsAt`).

Every such misuse is an explicit `Fault`.  `std::map` and `std::set` are `ExtTreeMap` and
`ExtTreeSet`, iterated in the order of their keys.

`Cli.hist` holds history variables.  The program has no such fields and no function reads them:
they record what was executed for, prepared for and sent to a connection since it was accepted.
-/

namespace FtIrc

open Std

/-- An address of a `Cli`. -/
abbrev Ptr := Nat

def NULL : Ptr := 0

/-- A `Ch*`: the key of the entry that owns the object, or `NULL`. -/
abbrev ChRef := Option Str

def MAX_CHS_PER_USER : Nat := 5
def MAX_NB_TARGETS : Nat := 5
def BUFSIZE : Nat := 513
def MAX_CMD_LEN : Nat := 512

/-- What must not happen. -/
inductive Fault where
  /-- a null `Ch*` is dereferenced -/
  | nullCh
  /-- `chs[chName]` stores a null `Ch*` under a new key (and it is dereferenced at once) -/
  | nullChStored
  /-- the object of a `Ch*` has been freed -/
  | danglingCh
  /-- a null `Cli*` is dereferenced -/
  | nullCli
  /-- the object of a `Cli*` has been freed -/
  | danglingCli
  /-- `ar[k]` with `k >= ar.size()` -/
  | argRange
  /-- character 0 of an empty string -/
  | emptyStr
  /-- `clis.at(fd)` throws -/
  | outOfRange
  deriving DecidableEq, Repr

/-- History variables of a connection. -/
structure Hist where
  /-- the commands executed for it, oldest first -/
  cmds : List (List Str)
  /-- the messages `prepareResp` was called with for it, oldest first -/
  prepared : List Str
  /-- the bytes `send` accepted for it -/
  accepted : Str

structure Cli where
  /-- the address of this object -/
  addr : Ptr
  fd : Nat
  host : Str
  passOk : Bool
  capInProgress : Bool
  nick : Str
  uName : Str
  rName : Str
  invits : ExtTreeSet Str
  bufToSend : Str
  bufRecv : Str
  hist : Hist

/-- `new Cli(fd_, host_)`, allocated at `addr`. -/
def Cli.new (addr : Ptr) (fd : Nat) (host : Str) : Cli where
  addr := addr
  fd := fd
  host := host
  passOk := false
  capInProgress := false
  nick := []
  uName := []
  rName := []
  invits := ∅
  bufToSend := []
  bufRecv := []
  hist := ⟨[], [], []⟩

/-- The negation of the test `!cli->passOk || cli->nick == "" || cli->uName == ""`. -/
def Cli.registered (c : Cli) : Bool := c.passOk && c.nick ≠ [] && c.uName ≠ []

structure Ch where
  topic : Str
  pass : Str
  optI : Bool
  optT : Bool
  limit : Nat
  clis : ExtTreeSet Ptr
  adms : ExtTreeSet Ptr

/-- `new Ch(adm)`. -/
def Ch.new (adm : Ptr) : Ch where
  topic := []
  pass := []
  optI := false
  optT := false
  limit := UINT_MAX
  clis := (∅ : ExtTreeSet Ptr).insert adm
  adms := (∅ : ExtTreeSet Ptr).insert adm

def Ch.size (ch : Ch) : Nat := ch.clis.size

/-- The values the program gives to `pollfd::events`. -/
inductive Events where
  | pollin
  | pollout
  deriving DecidableEq, Repr

structure Pollfd where
  fd : Nat
  events : Events
  deriving DecidableEq, Repr

structure Server where
  pass : Str
  fdForNewClis : Nat
  polls : List Pollfd
  clis : ExtTreeMap Nat Cli
  chs : ExtTreeMap Str Ch
  fdsToErase : ExtTreeSet Nat

namespace Server

/-! ## Clients -/

/-- The clients in the order of iteration over `clis`. -/
def clients (s : Server) : List Cli := s.clis.toList.map (·.2)

/-- The live object at an address. -/
def cliAt (s : Server) (p : Ptr) : Option Cli := s.clients.find? (·.addr = p)

/-- `*p`. -/
def deref (s : Server) (p : Ptr) : Except Fault Cli :=
  if p = NULL then .error .nullCli
  else
    match s.cliAt p with
    | some c => .ok c
    | none => .error .danglingCli

/-- Write through a pointer to a live object. -/
def updCli (s : Server) (p : Ptr) (f : Cli → Cli) : Server :=
  { s with clis := s.clis.map fun _ c => if c.addr = p then f c else c }

/-- `fdsToEraseNextIteration.insert(fd)`. -/
def markToErase (s : Server) (fd : Nat) : Server :=
  { s with fdsToErase := s.fdsToErase.insert fd }

/-- `getCli(nick)`. -/
def getCli (s : Server) (nick : Str) : Ptr :=
  match s.clients.find? fun c => toLower c.nick = toLower nick with
  | some c => c.addr
  | none => NULL

/-! ## Channels -/

/-- `getCh(chName)`. -/
def getCh (s : Server) (chName : Str) : ChRef :=
  s.chs.keys.find? fun k => toLower k = toLower chName

/-- `*ch`. -/
def derefCh (s : Server) : ChRef → Except Fault Ch
  | none => .error .nullCh
  | some k =>
    match s.chs[k]? with
    | some ch => .ok ch
    | none => .error .danglingCh

/-- `*chs[chName]`. -/
def chsAt (s : Server) (chName : Str) : Except Fault Ch :=
  match s.chs[chName]? with
  | some ch => .ok ch
  | none => .error .nullChStored

/-- Write through a `Ch*` to a live object. -/
def updCh (s : Server) (k : Str) (f : Ch → Ch) : Server :=
  { s with chs := s.chs.modify k f }

/-- `getCh(chName)->… = …`. -/
def setCh (s : Server) (chName : Str) (f : Ch → Ch) : Except Fault Server :=
  match s.getCh chName with
  | none => .error .nullCh
  | some k => .ok (s.updCh k f)

/-- The scan of a set of clients for a nick. -/
def findNick (s : Server) (nick : Str) : List Ptr → Except Fault Ptr
  | [] => .ok NULL
  | p :: ps => do
    let c ← s.deref p
    if toLower c.nick = toLower nick then .ok p else s.findNick nick ps

/-- `getCliOnCh(nick, chName)`. -/
def getCliOnCh (s : Server) (nick chName : Str) : Except Fault Ptr :=
  if s.getCh chName = none then .ok NULL
  else do
    let ch ← s.chsAt chName
    s.findNick nick ch.clis.toList

/-- `getAdmOnCh(nick, chName)`. -/
def getAdmOnCh (s : Server) (nick chName : Str) : Except Fault Ptr :=
  if s.getCh chName = none then .ok NULL
  else do
    let ch ← s.chsAt chName
    s.findNick nick ch.adms.toList

/-- `nbChannels(c)`. -/
def nbChannels (s : Server) (p : Ptr) : Nat :=
  (s.chs.toList.filter fun e => p ∈ e.2.clis).length

/-- `eraseCliFromCh(nick, chName)`. -/
def eraseCliFromCh (s : Server) (nick chName : Str) : Except Fault Server := do
  let p := s.getCli nick
  let ch ← s.derefCh (s.getCh chName)
  let ch := if p ∈ ch.clis then { ch with clis := ch.clis.erase p } else ch
  let ch := if p ∈ ch.adms then { ch with adms := ch.adms.erase p } else ch
  let ch :=
    if ch.adms.size = 0 ∧ 0 < ch.clis.size then
      { ch with adms := ch.adms.insert (ch.clis.min?.getD NULL) }
    else ch
  s.setCh chName fun _ => ch

end Server

/-! ## Arguments -/

/-- `ar[k]`. -/
def arg (ar : List Str) (k : Nat) : Except Fault Str :=
  match ar[k]? with
  | some a => .ok a
  | none => .error .argRange

/-- `s[0]`. -/
def first (s : Str) : Except Fault UInt8 :=
  match s with
  | [] => .error .emptyStr
  | b :: _ => .ok b

end FtIrc
