/-
Driving a bench.

A step may run other steps, those that its function carries and those that wait for
a point it comes to.  A waiting step is taken off the bench before it runs, so no
step runs more often than it is listed, and the number of all steps bounds how deep
they nest.

Figures are checked: the first that is out of range ends all steps, and then nothing is
reported.
-/
import AtMostOnce.Bench.Step
import AtMostOnce.FieldStore.Memory
import AtMostOnce.Ledger.Faulty
import AtMostOnce.Ledger.Fields

namespace AtMostOnce

namespace Bench

/-- The ledger of a bench. -/
inductive Backend where
  | memory (records : Ledger.Memory)
  | faulty (ledger : Ledger.Faulty)
  | fields (names : Ledger.FieldNames) (server : FieldStore.Memory)
  | server (names : Ledger.FieldNames) (replies : List FieldStore.Server.Reply)
  | table (layout : Ledger.TableLayout) (replies : List Table.Reply)

/-- An engine with the number of its cache. -/
structure Seat where
  engine : Engine
  cache : Option Nat

end Bench

/-- One clock, one ledger, engines and caches. -/
structure Bench where
  now : Millis
  environment : Environment
  backend : Bench.Backend
  seats : List Bench.Seat
  caches : List Cache
  /-- The number of the shared cache. -/
  shared : Option Nat
  /-- The steps that wait, the oldest first. -/
  waiting : List (Bench.Point × List Bench.Step)
  /-- What happened, the latest first. -/
  log : List Bench.Entry

namespace Bench

/-- What a step does on a bench, unless it ends with an overflow. -/
abbrev Play (α : Type) := StateT Bench (Except Overflow) α

/-- How a step within a step is run. -/
abbrev Player := Step → Play Result

/-- Notes what happened. -/
def note (e : Entry) : Play Unit := modify fun b => { b with log := e :: b.log }

/-- The time. -/
def time : Play Millis := do return (← get).now

/-- The second that the time belongs to. -/
def second : Play Seconds := do return secondsOf (← time)

/-- Runs steps within a step. -/
def playAll (player : Player) : List Step → Play Unit
  | [] => pure ()
  | s :: rest => do
    note (.nested s (← player s))
    playAll player rest

/-- Takes the first entry for a point out of a list. -/
def takeFirst (p : Point) : List (Point × List Step) → List Step × List (Point × List Step)
  | [] => ([], [])
  | (q, steps) :: rest =>
    if q = p then (steps, rest)
    else
      let (found, rest) := takeFirst p rest
      (found, (q, steps) :: rest)

/-- Runs the steps that have waited longest for a point. -/
def reach (player : Player) (p : Point) : Play Unit := do
  let (steps, waiting) := takeFirst p (← get).waiting
  modify fun b => { b with waiting := waiting }
  playAll player steps

/-- Does something between the two points of a request, and notes it in between. -/
def between {α : Type} (player : Player) (call : Call) (entry : α → Entry) (act : Play α) :
    Play α := do
  reach player ⟨false, call⟩
  let a ← act
  note (entry a)
  reach player ⟨true, call⟩
  return a

/-! ### The server of fields -/

/-- The status of a command that is done. -/
def okReply : FieldStore.Server.Reply := .status "OK"

/-- The next of the replies that wait, if one does. -/
def nextServerReply : Play (Option FieldStore.Server.Reply) := do
  match (← get).backend with
  | .server names (r :: replies) =>
    modify fun b => { b with backend := .server names replies }
    return some r
  | _ => return none

/-- Answers a message to the server behind a connection. -/
def answerMessage : FieldStore.Server.Message → Play FieldStore.Server.Reply
  | .single command => do
    note (.received command)
    return (← nextServerReply).getD okReply
  | .transaction commands => do
    (["MULTI"] :: commands ++ [["EXEC"]]).forM fun c => note (.received c)
    return (← nextServerReply).getD (.array (commands.map fun _ => okReply))

/-- Answers an operation of the server. -/
def answerStore (op : FieldStore.Operation) : Play op.Answer := do
  match (← get).backend with
  | .fields names server =>
    let (a, server) ← server.answerM (← time) op
    modify fun b => { b with backend := .fields names server }
    return a
  | _ => (FieldStore.Server.perform op).answerBy answerMessage

/-- What stands for the token of a lock. -/
def lockToken : String := "<token>"

/-- Answers what a ledger of fields asks. -/
def answerFields (player : Player) : (q : Ledger.Fields.Request) → Play q.Answer
  | .now => time
  | .token => pure lockToken
  | .store op => between player (.store op.kind) (.store op) (answerStore op)

/-! ### The table -/

/-- Answers what a ledger over a table asks. -/
def answerTable : (q : Ledger.TableLayout.Request) → Play q.Answer
  | .now => time
  | .send address r => do
    note (.sent address r)
    match (← get).backend with
    | .table layout (reply :: replies) =>
      modify fun b => { b with backend := .table layout replies }
      return reply
    | _ => return .response 200 (.object [])

/-! ### The ledger -/

/-- Answers a request to the ledger. -/
def answerLedger (player : Player) (q : Ledger.Request) : Play q.Answer := do
  match (← get).backend with
  | .memory records =>
    let (a, records) := records.answer (← time) q
    modify fun b => { b with backend := .memory records }
    return a
  | .faulty ledger =>
    let (a, ledger) := ledger.answer (← time) q
    modify fun b => { b with backend := .faulty ledger }
    return a
  | .fields names _ => (Ledger.Fields.checked names q).answerChecked (answerFields player)
  | .server names _ => (Ledger.Fields.checked names q).answerChecked (answerFields player)
  | .table layout _ => (layout.perform q).answerBy answerTable

/-- A request to the ledger, with the steps that wait for it. -/
def askLedger (player : Player) (q : Ledger.Request) : Play q.Answer :=
  between player (.ledger q.kind) (.ledger q) (answerLedger player q)

/-! ### Caches -/

/-- Uses a cache, if there is one of that number. -/
def withCache {α : Type} (number : Option Nat) (default : α) (use : Cache → α × Cache) :
    Play α := do
  match number with
  | none => return default
  | some i =>
    match (← get).caches[i]? with
    | none => return default
    | some c =>
      let (a, c) := use c
      modify fun b => { b with caches := b.caches.set i c }
      return a

/-- Looks a key up in a cache. -/
def cacheGet (number : Option Nat) (key : Key) : Play (Option Record) := do
  let now ← second
  withCache number none fun c => c.get now key

/-- Puts a record into a cache. -/
def cachePut (number : Option Nat) (r : Record) : Play Unit := do
  let now ← second
  withCache number () fun c => ((), c.put now r)

/-- Drops a key from a cache. -/
def cacheErase (number : Option Nat) (key : Key) : Play Unit :=
  withCache number () fun c => ((), c.erase key)

/-- The cache that a step is about. -/
def cacheOf : Option Nat → Play (Option Nat)
  | none => return (← get).shared
  | some engine => return ((← get).seats[engine]?).bind Seat.cache

/-! ### Engines -/

/-- Answers what an engine asks. -/
def answerEngine (player : Player) (cache : Option Nat) (outcome : Except Failure Json.Value)
    (during : List Step) : (q : Engine.Request) → Play (Engine.Answer Json.Value q)
  | .now => time
  | .cached key => cacheGet cache key
  | .keep r => cachePut cache r
  | .forget key => cacheErase cache key
  | .ledger q => askLedger player q
  | .start => do
    note .started
    playAll player during
  | .finish => pure outcome
  | .note e => note (.event e)

/-- The error of a step with an engine that there is not. -/
def noEngine : Error := .configuration "no such engine"

/-- Does something with an engine. -/
def withEngine {α : Type} (number : Nat) (act : Seat → Play (Except Error α)) :
    Play (Except Error α) := do
  match (← get).seats[number]? with
  | some seat => act seat
  | none => return .error noEngine

/-- Runs what an engine does without its function. -/
def quietly {α : Type} (player : Player) (source : Source)
    (act : Engine → Engine.Payload → Engine.Action Json.Value (Except Error α)) :
    Play (Except Error α) :=
  withEngine source.engine fun seat =>
    (act seat.engine source.payload).answerBy
      (answerEngine player seat.cache (.ok .null) [])

/-- The key that an engine derives. -/
def deriveKey (player : Player) (source : Source) : Play (Except Error Key) :=
  quietly player source Engine.key

/-- The key that a step is about. -/
def keyOf (player : Player) : KeyOf → Play (Except Error Key)
  | .named key => return .ok key
  | .derived source => deriveKey player source

/-- The record that a step is about. -/
def recordOf (player : Player) (r : RecordOf) : Play (Except Error Record) := do
  match r.record, r.key with
  | .error e, _ => return .error e
  | .ok record, none => return .ok record
  | .ok record, some source =>
    match ← deriveKey player source with
    | .error e => return .error e
    | .ok key => return .ok { record with key := key }

/-- Goes on with a key. -/
def withKey (player : Player) (k : KeyOf) (act : Key → Play Result) : Play Result := do
  match ← keyOf player k with
  | .error e => return .failed e
  | .ok key => act key

/-- Goes on with a record. -/
def withRecord (player : Player) (r : RecordOf) (act : Record → Play Result) : Play Result := do
  match ← recordOf player r with
  | .error e => return .failed e
  | .ok record => act record

/-- The result of what may have failed. -/
def resultOf {α : Type} (f : α → Result) : Except Error α → Result
  | .ok a => f a
  | .error e => .failed e

/-- Builds an engine and takes it onto the bench. -/
def build (functionName : String) (settings : Environment → Except Error Settings)
    (shares describe : Bool) : Play Result := do
  let b ← get
  match settings b.environment with
  | .error e => return .failed e
  | .ok settings =>
    let shared := if shares then b.shared else none
    match Engine.build b.environment functionName settings shared.isSome with
    | .error e => return .failed e
    | .ok engine =>
      let (cache, caches) :=
        if shared.isSome then (shared, b.caches)
        else if settings.useCache then
          (some b.caches.length, b.caches ++ [Cache.empty settings.cacheSize])
        else (none, b.caches)
      modify fun b => { b with seats := b.seats ++ [⟨engine, cache⟩], caches := caches }
      return .built engine.caches settings.expiresAfter
        (if describe then some engine.describe else none)

/-- Calls an engine. -/
def run (player : Player) (number : Nat) (i : Invocation) (during : List Step) : Play Result := do
  let result ← withEngine number fun seat =>
    (seat.engine.run i.encoding i.payload (i.remaining.getD seat.engine.settings.budget)).answerBy
      (answerEngine player seat.cache i.outcome during)
  return resultOf .returned result

/-! ### Looking into the ledger -/

/-- The error of a step that the ledger has no use for. -/
def noUse : Error := .configuration "no such operation on this ledger"

/-- Does something with the records of a ledger in memory. -/
def withRecords (act : Ledger.Memory → Result × Ledger.Memory) : Play Result := do
  match (← get).backend with
  | .memory records =>
    let (r, records) := act records
    modify fun b => { b with backend := .memory records }
    return r
  | .faulty ledger =>
    let (r, records) := act ledger.records
    modify fun b => { b with backend := .faulty { ledger with records := records } }
    return r
  | _ => return .failed noUse

/-- Does something with a ledger that fails on demand. -/
def withFaulty (act : Ledger.Faulty → Result × Ledger.Faulty) : Play Result := do
  match (← get).backend with
  | .faulty ledger =>
    let (r, ledger) := act ledger
    modify fun b => { b with backend := .faulty ledger }
    return r
  | _ => return .failed noUse

/-- Does something with a server of fields in memory. -/
def withServer (act : FieldStore.Memory → Play (Result × FieldStore.Memory)) : Play Result := do
  match (← get).backend with
  | .fields names server =>
    let (r, server) ← act server
    modify fun b => { b with backend := .fields names server }
    return r
  | _ => return .failed noUse

/-- The result of an operation right on the server. -/
def storeResult : (op : FieldStore.Operation) → op.Answer → Result
  | .claim _ _ _, a => resultOf .truth a
  | .write _ _ _, a => resultOf (fun _ => .done) a
  | .read _, a => resultOf (fun r => .read r.1 r.2) a
  | .lock _ _ _, a => resultOf .truth a
  | .replace _ _ _, a => resultOf (fun _ => .done) a
  | .delete _, a => resultOf (fun _ => .done) a

/-! ### Steps -/

/-- Runs a step; the steps within it are run by `player`. -/
def step (player : Player) : Step → Play Result
  | .build name settings shares describe => build name settings shares describe
  | .run engine invocation during => run player engine invocation during
  | .key source => return resultOf .key (← deriveKey player source)
  | .delete source => return resultOf .key (← quietly player source Engine.delete)
  | .advance millis => do
    modify fun b => { b with now := b.now.advance millis }
    return .time (← time)
  | .setClock now => do
    modify fun b => { b with now := now }
    return .time now
  | .setEnvironment change => do
    modify fun b => { b with environment := change b.environment }
    return .done
  | .hook point steps => do
    match point with
    | some p => modify fun b => { b with waiting := b.waiting ++ [(p, steps)] }
    | none => pure ()
    return .done
  | .claim r => withRecord player r fun r =>
      return resultOf .outcome (← askLedger player (.claim r))
  | .find k => withKey player k fun k =>
      return resultOf (fun r => .record (some r)) (← askLedger player (.find k))
  | .complete r => withRecord player r fun r =>
      return resultOf (fun _ => .done) (← askLedger player (.complete r))
  | .remove k => withKey player k fun k =>
      return resultOf (fun _ => .done) (← askLedger player (.remove k))
  | .insert r => withRecord player r fun r => withRecords fun m => (.done, m.put r)
  | .snapshot k => withKey player k fun k => withRecords fun m => (.record (m.get? k), m)
  | .size => withRecords fun m => (.size m.length, m)
  | .pushFault kind e => withFaulty fun l => (.done, l.push kind e)
  | .requests kind =>
    withFaulty fun l => (.requests (l.requests.map Ledger.Request.kind) (l.count kind), l)
  | .clearRequests => withFaulty fun l => (.done, l.clear)
  | .cacheGet engine k => withKey player k fun k => do
      return .record (← cacheGet (← cacheOf engine) k)
  | .cachePut engine r => withRecord player r fun r => do
      cachePut (← cacheOf engine) r
      return .done
  | .cacheErase engine k => withKey player k fun k => do
      cacheErase (← cacheOf engine) k
      return .done
  | .cacheSize engine => do
    return .count (← withCache (← cacheOf engine) 0 fun c => (c.size, c))
  | .store k op => withKey player k fun k => do
      let op := op k.text
      return storeResult op (← answerStore op)
  | .failNextWrite => withServer fun s => return (.done, { s with writeFails := true })
  | .storeFields k secret => withKey player k fun k => do
      let now ← time
      withServer fun s => do
        let fields := (s.fields? now k.text).map fun fields => if secret then [] else fields
        return (.fields fields, s)
  | .storeTtl k => withKey player k fun k => do
      let now ← time
      withServer fun s => do
        return (.ttl (← s.ttlM now k.text) (s.entry? now k.text).isSome, s)
  | .tableReplies replies => do
    match (← get).backend with
    | .table layout waiting =>
      modify fun b => { b with backend := .table layout (waiting ++ replies) }
      return .done
    | _ => return .failed noUse
  | .serverReplies replies => do
    match (← get).backend with
    | .server names waiting =>
      modify fun b => { b with backend := .server names (waiting ++ replies) }
      return .done
    | _ => return .failed noUse

/-- The error of a step that nests too deep. -/
def tooDeep : Error := .configuration "steps nest too deep"

/-- Runs a step with steps nested up to a depth. -/
def play : (depth : Nat) → Player
  | 0, _ => return .failed tooDeep
  | depth + 1, s => step (play depth) s

/-- What one step came to, and what happened meanwhile. -/
structure Report where
  result : Result
  log : List Entry

/-- Runs steps one after the other. -/
def playReports (depth : Nat) : List Step → Play (List Report)
  | [] => return []
  | s :: rest => do
    modify fun b => { b with log := [] }
    let result ← play depth s
    let report := ⟨result, (← get).log.reverse⟩
    return report :: (← playReports depth rest)

/-- The reports of all steps. -/
def reports (b : Bench) (steps : List Step) : Except Overflow (List Report) :=
  (playReports (totalOf steps) steps).run' b

/-- A bench before its first step, with a shared cache of some size if one is asked for. -/
def start (now : Millis) (environment : Environment) (backend : Backend)
    (sharedSize : Option Nat) : Bench where
  now := now
  environment := environment
  backend := backend
  seats := []
  caches := sharedSize.toList.map Cache.empty
  shared := sharedSize.map fun _ => 0
  waiting := []
  log := []

end Bench

end AtMostOnce
