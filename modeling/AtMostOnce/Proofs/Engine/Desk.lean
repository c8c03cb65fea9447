/-
One engine that serves one call after the other.

Nothing happens at a desk while a call is served but what the call itself asks for, so a
call is a function of the desk: its dialogue is answered to its end.  The clock is set
when a call comes and when its function ends.  The cache may lose any of its records
after any question, over and above what its capacity makes it lose.

`Books` is what a desk holds besides the cache.  Every question that is not about the
cache is answered by the books alone (`Visit.answer_eq`).
-/
import AtMostOnce.Proofs.Engine.Interleaved

namespace AtMostOnce

namespace Cache

/-- The cache without the records that it loses. -/
def lose (c : Cache) (losing : Record → Bool) : Cache :=
  { c with records := c.records.filter fun r => !losing r }

theorem mem_lose {c : Cache} {losing : Record → Bool} {r : Record}
    (h : r ∈ (c.lose losing).records) : r ∈ c.records := (List.mem_filter.mp h).1

end Cache

namespace Ledger.Memory

/-- Every record is under its own key. -/
def Keyed (m : Memory) : Prop := ∀ k r, m.get? k = some r → r.key = k

theorem Keyed.put {m : Memory} (h : m.Keyed) (r : Record) : (m.put r).Keyed := by
  intro k r' hr
  rw [Memory.put, Assoc.get?_insert] at hr
  split at hr
  · cases hr
    assumption
  · exact h k r' hr

theorem Keyed.erase {m : Memory} (h : m.Keyed) (k : Key) :
    Keyed (Assoc.erase m k) := by
  intro k' r hr
  rw [Assoc.get?_erase] at hr
  split at hr
  · cases hr
  · exact h k' r hr

theorem Keyed.answer {m : Memory} (h : m.Keyed) (now : Millis) (q : Request) :
    (Memory.answer now q m).2.Keyed := by
  cases q with
  | claim r =>
    rw [Memory.answer]
    split
    · exact h.put r
    · exact h
  | find k =>
    rw [Memory.answer]
    split
    · exact h
    · exact h
  | complete r => exact h.put r
  | remove k => exact h.erase k

/-- The ledger into which some records were put. -/
def ofRecords (records : List Record) : Memory := records.foldl put []

theorem keyed_ofRecords (records : List Record) : (ofRecords records).Keyed := by
  suffices h : ∀ (m : Memory), m.Keyed → (records.foldl put m).Keyed from h [] nofun
  induction records with
  | nil => exact fun _ h => h
  | cons r records ih => exact fun m h => ih _ (h.put r)

end Ledger.Memory

namespace Engine

/-- A call at a desk: what it is for, when it comes, how its function ends if it is started, and
what the clock says then. -/
structure Visit where
  Result : Type
  task : Task Result
  payload : Payload
  arrival : Millis
  outcome : Except Failure Result
  departure : Millis

/-- A desk with a cache of its own. -/
structure Desk where
  site : Site Unit
  /-- How many questions were answered so far. -/
  asked : Nat
  /-- How often the function of the last call was started. -/
  starts : Nat

/-- What a desk holds besides the cache. -/
structure Books where
  now : Millis
  records : Ledger.Memory
  starts : Nat

namespace Desk

def cache (d : Desk) : Cache := d.site.caches ()

def books (d : Desk) : Books := ⟨d.site.now, d.site.records, d.starts⟩

/-- A desk over a ledger with some records, whose cache has room for so many. -/
def fresh (records : List Record) (capacity : Nat) : Desk :=
  ⟨⟨0, .ofRecords records, fun _ => .empty capacity⟩, 0, 0⟩

end Desk

/-- Is the question about the cache? -/
def Request.isAside : Request → Bool
  | .cached _ | .keep _ | .forget _ => true
  | _ => false

namespace Visit

variable (v : Visit) (losing : Nat → Record → Bool)

/-- The answer to a question during a visit, and the desk after it.  Time passes only while the
function runs, and after every question the cache may lose records. -/
def answer (q : Request) (d : Desk) : Answer v.Result q × Desk :=
  let (a, site) := d.site.reply () v.outcome q
  let now := match q with
    | .finish => v.departure
    | _ => site.now
  let starts := match q with
    | .start => d.starts + 1
    | _ => d.starts
  (a, ⟨⟨now, site.records, fun c => (site.caches c).lose (losing d.asked)⟩, d.asked + 1, starts⟩)

/-- Answers a dialogue to its end. -/
def on {β : Type} (talk : Action v.Result β) : StateM Desk β :=
  talk.answerBy fun q => v.answer losing q

/-- Serves a call. -/
def serve (e : Engine) (d : Desk) : Ending v.Result × Desk :=
  v.on losing (⟨e, (), v.payload, v.task⟩ : Call Unit v.Result).talk
    { d with site := { d.site with now := v.arrival }, starts := 0 }

/-- How the books answer a question; without a cache nothing is found in it. -/
def tell (s : Books) : (q : Request) → Answer v.Result q × Books
  | .now => (s.now, s)
  | .cached _ => (none, s)
  | .keep _ => ((), s)
  | .forget _ => ((), s)
  | .ledger q =>
    ((Ledger.Memory.answer s.now q s.records).1,
      { s with records := (Ledger.Memory.answer s.now q s.records).2 })
  | .start => ((), { s with starts := s.starts + 1 })
  | .finish => (v.outcome, { s with now := v.departure })
  | .note _ => ((), s)

/-- A question that is not about the cache is answered by the books, and brings nothing into the
cache. -/
theorem answer_eq {q : Request} (hq : q.isAside = false) (d : Desk) :
    (v.answer losing q d).1 = (v.tell d.books q).1 ∧
      (v.answer losing q d).2.books = (v.tell d.books q).2 ∧
      ∀ r ∈ (v.answer losing q d).2.cache.records, r ∈ d.cache.records := by
  cases q with
  | cached k => cases hq
  | keep r => cases hq
  | forget k => cases hq
  | _ => exact ⟨rfl, rfl, fun r hr => Cache.mem_lose hr⟩

variable {v losing} {β γ : Type}

theorem on_ask (q : Request) (next : Answer v.Result q → Action v.Result β) (d : Desk) :
    v.on losing (.ask q next) d =
      v.on losing (next (v.answer losing q d).1) (v.answer losing q d).2 := rfl

theorem on_bind (talk : Action v.Result β) (f : β → Action v.Result γ) (d : Desk) :
    v.on losing (talk >>= f) d =
      v.on losing (f (v.on losing talk d).1) (v.on losing talk d).2 := by
  induction talk generalizing d with
  | done b => rfl
  | ask q next ih =>
    rw [Dialogue.ask_bind, on_ask, ih, on_ask]

end Visit

/-- Serves some calls one after the other. -/
def Desk.after (losing : Nat → Record → Bool) (e : Engine) (visits : List Visit) (d : Desk) :
    Desk :=
  visits.foldl (fun d v => (v.serve losing e d).2) d

end Engine

end AtMostOnce
