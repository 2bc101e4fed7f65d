import FtIrc.Reply
import FtIrc.Split

/-!
# Messages between clients

`PRIVMSG`, `NOTICE` and `QUIT` of `Commands.cpp`.
-/

namespace FtIrc.Server

/-- `451`, the reply of the handlers that require a registration. -/
def errNotRegistered (c : Cli) : Str := str "451 " ++ c.nick ++ str " :User not logged in"

/-- The test on a comma list: an item occurs twice, or there are too many. -/
def tooManyTargets (tos : List Str) : Bool := ¬ tos.Nodup ∨ MAX_NB_TARGETS < tos.length

/-- `<nick>!<uName>@127.0.0.1`, as `PRIVMSG` and `NOTICE` write the author. -/
def localPrefix (c : Cli) : Str := c.nick ++ str "!" ++ c.uName ++ str "@127.0.0.1"

/-- `<nick>!<uName>@<host>`, as the channel commands write the author. -/
def hostPrefix (c : Cli) : Str := c.nick ++ str "!" ++ c.uName ++ str "@" ++ c.host

/-- The loop of `execPrivmsg` (`c` is the author's record). -/
def privmsgLoop (cli : Ptr) (c : Cli) (a1 a2 : Str) : List Str → Server → Except Fault Server
  | [], s => .ok s
  | toName :: tos, s => do
    let b ← first toName
    let s ←
      if b = HASH then
        if toLower toName ∉ s.chs then
          s.prepareResp cli (str "401 " ++ toName ++ str " :No such nick/channel " ++ toName)
        else do
          let p ← s.getCliOnCh c.nick toName
          if p = NULL then
            s.prepareResp cli
              (str "404 :" ++ localPrefix c ++ str " " ++ toName ++ str " :Cannot send to channel")
          else
            s.prepareRespExceptAuthor cli (s.getCh toName)
              (str ":" ++ localPrefix c ++ str " PRIVMSG " ++ a1 ++ str " :" ++ a2)
      else if s.getCli toName = NULL then
        s.prepareResp cli (str "401 " ++ toName ++ str " :No such nick/channel " ++ toName)
      else
        s.prepareResp (s.getCli toName)
          (str ":" ++ localPrefix c ++ str " PRIVMSG " ++ a1 ++ str " :" ++ a2)
    privmsgLoop cli c a1 a2 tos s

/-- `execPrivmsg`. -/
def execPrivmsg (s : Server) (cli : Ptr) (ar : List Str) : Except Fault Server := do
  let c ← s.deref cli
  if c.registered = false then
    s.prepareResp cli (errNotRegistered c)
  else if ar.length = 1 then do
    let a0 ← arg ar 0
    s.prepareResp cli (str "411 :No recipient given (" ++ a0 ++ str ")")
  else if ar.length = 2 then
    s.prepareResp cli (str "412 :No text to send")
  else do
    let a1 ← arg ar 1
    let tos := splitArgToSubargs a1
    if tooManyTargets tos then
      s.prepareResp cli (str "407 " ++ a1 ++ str " not valid recipients")
    else do
      let a2 ← arg ar 2
      privmsgLoop cli c a1 a2 tos s

/-- The text of a `NOTICE`: written in bold red. -/
def noticeLine (c : Cli) (a1 a2 : Str) : Str :=
  str ":" ++ localPrefix c ++ str " NOTICE " ++ a1 ++ str " :\x1b[1;31m" ++ a2 ++ str "\x1b[0m"

/-- The loop of `execNotice`. -/
def noticeLoop (cli : Ptr) (c : Cli) (a1 a2 : Str) : List Str → Server → Except Fault Server
  | [], s => .ok s
  | toName :: tos, s => do
    let b ← first toName
    let s ←
      if b = HASH ∧ s.getCh toName ≠ none then
        s.prepareRespExceptAuthor cli (s.getCh toName) (noticeLine c a1 a2)
      else if b ≠ HASH ∧ s.getCli toName ≠ NULL then
        s.prepareResp (s.getCli toName) (noticeLine c a1 a2)
      else .ok s
    noticeLoop cli c a1 a2 tos s

/-- `execNotice`. -/
def execNotice (s : Server) (cli : Ptr) (ar : List Str) : Except Fault Server := do
  let c ← s.deref cli
  if c.registered = false ∨ ar.length < 3 then .ok s
  else do
    let a1 ← arg ar 1
    let a2 ← arg ar 2
    noticeLoop cli c a1 a2 (splitArgToSubargs a1) s

/-- The line `execQuit` prepares for a client: it names that client, not the author. -/
def quitLine (d : Cli) (text : Str) : Str := hostPrefix d ++ str " QUIT :Quit:" ++ text

/-- The loop of `execQuit`. -/
def quitLoop (text : Str) : List Cli → Server → Except Fault Server
  | [], s => .ok s
  | d :: ds, s => do
    let s ← s.prepareResp d.addr (quitLine d text)
    quitLoop text ds s

/-- `execQuit`. -/
def execQuit (s : Server) (cli : Ptr) (ar : List Str) : Except Fault Server := do
  let c ← s.deref cli
  let text ← if ar.length = 2 then arg ar 1 else .ok []
  let s ← quitLoop text s.clients s
  .ok (s.markToErase c.fd)

end FtIrc.Server
