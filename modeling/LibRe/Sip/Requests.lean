/-
LibRe.Sip.Requests — a stack with its requests, and the DNS answers they share.

The requests of a stack are on one list. An answer of the DNS client is an object with
lists of record objects; while it is cached it is handed to every request that asks for
the same name, and so are its records. A record has one link for address and SRV lists,
whichever request they belong to, and one for the list it was received in, from which
`rr_cache_handler` takes it.

Translation notes. An answer object says which kind of query it answers; that the name
fits too is left open, so more answers are possible here than in the program. Cached
answers that time out are not handed out any more. The lists as DNS gave them are kept
with the answer, to say what has become of them.
-/
import LibRe.Sip.RequestRuns

namespace LibRe.Sip.Requests

open Dns Sip.Request
open Sip.Ctrans (CtEvent)

/-- The sections of an answer. -/
structure Sections where
  ansl : List Rr
  addl : List Rr
  deriving DecidableEq, Repr

/-- An answer of the DNS client: what it is for, its lists now, and as they were given. -/
structure Answer where
  handler : DnsHandler
  lists : Sections
  given : Sections
  deriving DecidableEq, Repr

/-- The requests of a stack, the answers that were received, the next number of a record,
and all that the requests have done. -/
structure Stack where
  sip : SipStack
  reqs : Table SipRequest
  answers : Table Answer
  keys : Nat
  log : List (Nat × Out)

/-- What happens to a stack. -/
inductive Event where
  | config (sip : SipStack)
  | request (args : Args) (env : Env)
  | reply (handler : DnsHandler) (ansl addl : List Dnsrr)
  | answer (id : Nat) (second : Bool) (err : Option Errno) (a : Nat) (env : Env)
  | noAnswer (id : Nat) (second : Bool) (err : Errno) (env : Env)
  | ct (id : Nat) (e : CtEvent) (env : Env)
  | cancel (id : Nat)
  | drop (id : Nat)
  | close (id : Nat)

/-- Record objects for the records of a section. -/
def numbered (key : Nat) (rrs : List Dnsrr) : List Rr :=
  rrs.mapIdx fun i rr => { key := key + i, rr }

variable (s : Stack) (id : Nat)

/-- `rr->le.list`: the record is on a list of another request. -/
def busyFor (rr : Rr) : Bool :=
  s.reqs.items.any fun item => item.1 ≠ id ∧ (item.2.addrl.contains rr || item.2.srvl.contains rr)

/-- An event at one request. -/
def Stack.apply (e : Request.Event) : Stack :=
  match s.reqs.get id with
  | none => s
  | some req =>
    { s with
      reqs := s.reqs.set id (reqStep s.sip req e).1
      log := s.log ++ (reqStep s.sip req e).2.map fun out => (id, out) }

/-- The records that `rr_cache_handler` has taken. -/
def cachedBy (outs : List Out) : List Rr :=
  outs.flatMap fun
    | .cached cachel => cachel
    | _ => []

/-- The lists of an answer after its handler has run: NAPTR records are sorted where they
are, and records that were taken are gone. -/
def Answer.used (a : Answer) (req : SipRequest) (outs : List Out) : Answer where
  handler := a.handler
  lists :=
    { ansl :=
        if a.handler = .naptr then dnsRrlistSort a.lists.ansl RrType.NAPTR.code req.sortkey
        else a.lists.ansl
      addl := a.lists.addl.filter (!(cachedBy outs).contains ·) }
  given := a.given

/-- The request and the answer, if the request has a pending query of this kind. -/
def Stack.delivers (second : Bool) (a : Nat) : Option (SipRequest × Answer) :=
  match s.reqs.get id, s.answers.get a with
  | some req, some answer =>
    if (if second then req.dnsq2 else req.dnsq) = some answer.handler then some (req, answer)
      else none
  | _, _ => none

/-- What an event does. -/
def step : Event → Stack
  | .config sip => { s with sip }
  | .request args env =>
    { s with
      reqs :=
        match (begin s.sip env args).1 with
        | some req => s.reqs.add req
        | none => s.reqs.skip
      log := s.log ++ (begin s.sip env args).2.map fun out => (s.reqs.fresh, out) }
  | .reply handler ansl addl =>
    let lists : Sections :=
      { ansl := numbered s.keys ansl, addl := numbered (s.keys + ansl.length) addl }
    { s with
      answers := s.answers.add { handler, lists, given := lists }
      keys := s.keys + ansl.length + addl.length }
  | .answer id second err a env =>
    match s.delivers id second a with
    | none => s
    | some (req, answer) =>
      let e := Request.Event.answer second err answer.lists.ansl answer.lists.addl
        { env with busy := busyFor s id }
      { s.apply id e with
        answers := s.answers.set a (some (answer.used req (reqStep s.sip req e).2)) }
  | .noAnswer id second err env =>
    s.apply id (.answer second (some err) [] [] { env with busy := busyFor s id })
  | .ct id e env => s.apply id (.ct e { env with busy := busyFor s id })
  | .cancel id => s.apply id .cancel
  | .drop id => s.apply id .drop
  | .close id => s.apply id .close

/-- A stack without requests. -/
def start (sip : SipStack) : Stack where
  sip := sip
  reqs := Table.empty
  answers := Table.empty
  keys := 0
  log := []

/-! ## The requests after an event -/

theorem apply_get (id id' : Nat) (e : Request.Event) :
    (s.apply id e).reqs.get id' =
      if id' = id then (s.reqs.get id).bind fun req => (reqStep s.sip req e).1
        else s.reqs.get id' := by
  unfold Stack.apply
  cases hget : s.reqs.get id with
  | none => by_cases hid : id' = id <;> simp [hid, hget]
  | some req => simp [Table.get_set, hget]

/-- A request that is made is added to the list, if it is not gone already. -/
theorem request_get (args : Args) (env : Env) (id : Nat) :
    (Requests.step s (.request args env)).reqs.get id =
      if id = s.reqs.fresh then (begin s.sip env args).1 else s.reqs.get id := by
  simp only [Requests.step]
  cases (begin s.sip env args).1 with
  | none => by_cases hid : id = s.reqs.fresh <;> simp [hid, Table.get_fresh]
  | some req => exact Table.get_add ..

end LibRe.Sip.Requests
