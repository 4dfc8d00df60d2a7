import Mathlib.Data.List.AList
import Mathlib.Logic.Function.Basic

/-!
# One permit for each key

A registry hands out a semaphore with one permit for each key, and remembers it weakly: a semaphore is
alive while somebody waits for its permit or holds it.  Dead semaphores stay in the registry until it
is pruned or until the next request for their key replaces them.  Whenever that is, the callers of one
key share one semaphore, so one of them at most holds its permit.
-/

namespace AList

variable {κ ν : Type} [DecidableEq κ]

/-- Keep the entries that meet a condition. -/
def retain (keep : κ → ν → Bool) (map : AList fun _ : κ => ν) : AList fun _ : κ => ν where
  entries := map.entries.filter fun entry => keep entry.1 entry.2
  nodupKeys := List.NodupKeys.sublist List.filter_sublist map.nodupKeys

theorem lookup_retain_eq_some {keep : κ → ν → Bool} {map : AList fun _ : κ => ν} {key : κ}
    {value : ν} : (map.retain keep).lookup key = some value ↔
      map.lookup key = some value ∧ keep key value = true := by
  rw [← Option.mem_def, mem_lookup_iff, ← Option.mem_def, mem_lookup_iff]
  exact List.mem_filter

theorem lookup_insert_eq_some {map : AList fun _ : κ => ν} {key other : κ} {value found : ν} :
    (map.insert key value).lookup other = some found ↔
      other = key ∧ found = value ∨ other ≠ key ∧ map.lookup other = some found := by
  by_cases own : other = key
  · subst own
    rw [lookup_insert, Option.some.injEq]
    simp [eq_comm]
  · simp [own, lookup_insert_ne]

end AList

/-- What a caller has of a semaphore: a place in its queue, or its permit. -/
structure Ticket (κ : Type) where
  key : κ
  semaphore : Nat
  holds : Bool
  deriving DecidableEq

/-- Semaphores by key, and the tickets of those who use one. -/
structure Permits (κ ι : Type) where
  semaphores : AList fun _ : κ => Nat
  tickets : AList fun _ : ι => Ticket κ
  /-- Permits that nobody holds, by semaphore. -/
  available : Nat → Nat
  /-- Semaphores made so far. -/
  created : Nat

namespace Permits

variable {κ ι : Type}

def new : Permits κ ι :=
  { semaphores := ∅, tickets := ∅, available := fun _ => 0, created := 0 }

/-- Somebody waits for the semaphore's permit or holds it. -/
def alive (permits : Permits κ ι) (semaphore : Nat) : Bool :=
  permits.tickets.entries.any fun entry => entry.2.semaphore == semaphore

variable [DecidableEq κ] [DecidableEq ι]

variable {semaphore : Nat}

omit [DecidableEq κ] in
theorem alive_iff {permits : Permits κ ι} :
    permits.alive semaphore = true ↔
      ∃ caller ticket, permits.tickets.lookup caller = some ticket ∧
        ticket.semaphore = semaphore := by
  rw [alive, List.any_eq_true]
  constructor
  · rintro ⟨⟨caller, ticket⟩, member, same⟩
    exact ⟨caller, ticket, AList.mem_lookup_iff.mpr member, beq_iff_eq.mp same⟩
  · rintro ⟨caller, ticket, found, same⟩
    exact ⟨⟨caller, ticket⟩, AList.mem_lookup_iff.mp found, beq_iff_eq.mpr same⟩

/-- The key that a caller has a ticket for, and whether it holds the permit. -/
def standing (permits : Permits κ ι) (caller : ι) : Option (κ × Bool) :=
  (permits.tickets.lookup caller).map fun ticket => (ticket.key, ticket.holds)

/-- Join the queue of the key's semaphore, which is made if there is none alive. -/
def request (permits : Permits κ ι) (caller : ι) (key : κ) (prune : Bool) : Permits κ ι :=
  let kept := if prune then permits.semaphores.retain fun _ semaphore => permits.alive semaphore
    else permits.semaphores
  match (permits.semaphores.lookup key).filter permits.alive with
  | some semaphore =>
    { permits with
      semaphores := kept
      tickets := permits.tickets.insert caller { key, semaphore, holds := false } }
  | none =>
    { semaphores := kept.insert key permits.created
      tickets := permits.tickets.insert caller { key, semaphore := permits.created, holds := false }
      available := Function.update permits.available permits.created 1
      created := permits.created + 1 }

/-- Take the permit, if the caller waits for it and it is there. -/
def acquire (permits : Permits κ ι) (caller : ι) : Permits κ ι :=
  match permits.tickets.lookup caller with
  | none => permits
  | some ticket =>
    if ticket.holds = false ∧ 0 < permits.available ticket.semaphore then
      { permits with
        tickets := permits.tickets.insert caller { ticket with holds := true }
        available := Function.update permits.available ticket.semaphore
          (permits.available ticket.semaphore - 1) }
    else permits

/-- Leave the queue, or give the permit back. -/
def release (permits : Permits κ ι) (caller : ι) : Permits κ ι :=
  match permits.tickets.lookup caller with
  | none => permits
  | some ticket =>
    { permits with
      tickets := permits.tickets.erase caller
      available := if ticket.holds then
          Function.update permits.available ticket.semaphore
            (permits.available ticket.semaphore + 1)
        else permits.available }

/-- A caller holds the permit of a semaphore. -/
def HoldsOf (permits : Permits κ ι) (semaphore : Nat) (caller : ι) : Prop :=
  ∃ ticket, permits.tickets.lookup caller = some ticket ∧ ticket.semaphore = semaphore ∧
    ticket.holds = true

/-- The semaphore's permit is there, or one caller holds it. -/
def OnePermit (permits : Permits κ ι) (semaphore : Nat) : Prop :=
  (permits.available semaphore = 1 ∧ ∀ caller, ¬ permits.HoldsOf semaphore caller) ∨
    (permits.available semaphore = 0 ∧ ∃ caller, permits.HoldsOf semaphore caller ∧
      ∀ other, permits.HoldsOf semaphore other → other = caller)

/-- Every ticket is for the semaphore that the registry has for its key, keys have semaphores of
their own, and every semaphore in use has one permit. -/
structure WellFormed (permits : Permits κ ι) : Prop where
  registered : ∀ {caller ticket}, permits.tickets.lookup caller = some ticket →
    permits.semaphores.lookup ticket.key = some ticket.semaphore
  own : ∀ {key key' semaphore}, permits.semaphores.lookup key = some semaphore →
    permits.semaphores.lookup key' = some semaphore → key = key'
  created : ∀ {key semaphore}, permits.semaphores.lookup key = some semaphore →
    semaphore < permits.created
  permit : ∀ {caller ticket}, permits.tickets.lookup caller = some ticket →
    permits.OnePermit ticket.semaphore

theorem wellFormed_new : (new : Permits κ ι).WellFormed := by
  constructor <;> intros <;> contradiction

section

variable {permits : Permits κ ι}

variable {ticket : Ticket κ}

/-- Tickets of one key are for one semaphore. -/
theorem WellFormed.semaphore_eq (wellFormed : permits.WellFormed) {first second : ι}
    {ticket' : Ticket κ} (left : permits.tickets.lookup first = some ticket)
    (right : permits.tickets.lookup second = some ticket') (same : ticket.key = ticket'.key) :
    ticket.semaphore = ticket'.semaphore := by
  have own := wellFormed.registered left
  rw [same, wellFormed.registered right] at own
  exact (Option.some.inj own).symm

theorem WellFormed.key_eq (wellFormed : permits.WellFormed) {first second : ι} {ticket' : Ticket κ}
    (left : permits.tickets.lookup first = some ticket)
    (right : permits.tickets.lookup second = some ticket')
    (same : ticket.semaphore = ticket'.semaphore) : ticket.key = ticket'.key :=
  wellFormed.own (wellFormed.registered left) (same ▸ wellFormed.registered right)

variable {caller : ι}

omit [DecidableEq κ] in
theorem standing_eq_some {key : κ} {holds : Bool} :
    permits.standing caller = some (key, holds) ↔
      ∃ ticket, permits.tickets.lookup caller = some ticket ∧ ticket.key = key ∧
        ticket.holds = holds := by
  rw [standing, Option.map_eq_some_iff]
  exact exists_congr fun ticket => and_congr_right fun _ => Prod.mk.injEq .. ▸ Iff.rfl

theorem WellFormed.holdsOf_iff (wellFormed : permits.WellFormed) {other : ι}
    (found : permits.tickets.lookup caller = some ticket) :
    permits.HoldsOf ticket.semaphore other ↔ permits.standing other = some (ticket.key, true) := by
  rw [standing_eq_some]
  constructor
  · rintro ⟨held, there, same, holds⟩
    exact ⟨held, there, wellFormed.key_eq there found same, holds⟩
  · rintro ⟨held, there, same, holds⟩
    exact ⟨held, there, wellFormed.semaphore_eq there found same, holds⟩

/-- One caller at most holds the permit of a key. -/
theorem WellFormed.holder_unique (wellFormed : permits.WellFormed) {key : κ} {first second : ι}
    (left : permits.standing first = some (key, true))
    (right : permits.standing second = some (key, true)) : first = second := by
  obtain ⟨ticket, found, rfl, holds⟩ := standing_eq_some.mp left
  have right := (wellFormed.holdsOf_iff found).mpr right
  rcases wellFormed.permit found with ⟨-, nobody⟩ | ⟨-, holder, -, only⟩
  · exact absurd right (nobody second)
  · exact (only first ⟨ticket, found, rfl, holds⟩).trans (only second right).symm

/-- A waiting caller gets the permit exactly if nobody holds it. -/
theorem WellFormed.acquire_iff (wellFormed : permits.WellFormed) {key : κ}
    (waits : permits.standing caller = some (key, false)) :
    (permits.acquire caller).standing caller = some (key, true) ↔
      ∀ other, permits.standing other ≠ some (key, true) := by
  obtain ⟨ticket, found, rfl, waiting⟩ := standing_eq_some.mp waits
  rw [acquire, found]
  rcases wellFormed.permit found with ⟨free, nobody⟩ | ⟨taken, holder, holds, -⟩
  · have granted : ticket.holds = false ∧ 0 < permits.available ticket.semaphore :=
      ⟨waiting, by omega⟩
    simp only [if_pos granted]
    refine iff_of_true (standing_eq_some.mpr ⟨_, AList.lookup_insert _, rfl, rfl⟩)
      fun other held => ?_
    exact nobody other ((wellFormed.holdsOf_iff found).mpr held)
  · have refused : ¬ (ticket.holds = false ∧ 0 < permits.available ticket.semaphore) := by
      rintro ⟨-, free⟩
      omega
    simp only [if_neg refused]
    refine iff_of_false ?_ fun nobody => nobody holder ((wellFormed.holdsOf_iff found).mp holds)
    rw [waits]
    nofun

/-! ### Steps -/

variable {after : Permits κ ι}

omit [DecidableEq κ] in
/-- Changing the ticket of a caller who does not hold a semaphore's permit before or after leaves
the permit as it is. -/
theorem OnePermit.frame (one : permits.OnePermit semaphore) (caller : ι)
    (others : ∀ other, other ≠ caller → after.tickets.lookup other = permits.tickets.lookup other)
    (never : ¬ permits.HoldsOf semaphore caller) (never' : ¬ after.HoldsOf semaphore caller)
    (available : after.available semaphore = permits.available semaphore) :
    after.OnePermit semaphore := by
  have same (other : ι) : after.HoldsOf semaphore other ↔ permits.HoldsOf semaphore other := by
    by_cases own : other = caller
    · rw [own]
      exact iff_of_false never' never
    · rw [HoldsOf, HoldsOf, others other own]
  simpa only [OnePermit, available, same] using one

omit [DecidableEq κ] in
/-- A caller who has no permit does not hold one. -/
theorem not_holdsOf
    (idle : ∀ ticket, permits.tickets.lookup caller = some ticket →
      ticket.semaphore = semaphore → ticket.holds = false) :
    ¬ permits.HoldsOf semaphore caller := by
  rintro ⟨ticket, found, same, holds⟩
  rw [idle ticket found same] at holds
  cases holds

omit [DecidableEq κ] in
/-- A new ticket without a permit leaves the permits as they are. -/
theorem OnePermit.of_insert (one : permits.OnePermit semaphore)
    (fresh : permits.tickets.lookup caller = none)
    (tickets : after.tickets = permits.tickets.insert caller ticket) (waits : ticket.holds = false)
    (available : after.available semaphore = permits.available semaphore) :
    after.OnePermit semaphore := by
  refine one.frame caller (fun other own => ?_) (not_holdsOf fun held found => ?_)
    (not_holdsOf fun held found _ => ?_) available
  · rw [tickets, AList.lookup_insert_ne own]
  · rw [fresh] at found
    cases found
  · rw [tickets, AList.lookup_insert] at found
    obtain rfl := Option.some.inj found
    exact waits

/-- The registry after dead semaphores are dropped from it, or not. -/
structure Kept (permits : Permits κ ι) (kept : AList fun _ : κ => Nat) : Prop where
  registered : ∀ {key semaphore}, kept.lookup key = some semaphore →
    permits.semaphores.lookup key = some semaphore
  used : ∀ {caller ticket}, permits.tickets.lookup caller = some ticket →
    kept.lookup ticket.key = some ticket.semaphore

theorem WellFormed.kept (wellFormed : permits.WellFormed) (prune : Bool) :
    permits.Kept (if prune then permits.semaphores.retain fun _ semaphore => permits.alive semaphore
      else permits.semaphores) := by
  cases prune with
  | false => exact ⟨id, wellFormed.registered⟩
  | true =>
      constructor
      · intro key semaphore found
        rw [if_pos rfl, AList.lookup_retain_eq_some] at found
        exact found.1
      · intro caller ticket found
        rw [if_pos rfl, AList.lookup_retain_eq_some]
        exact ⟨wellFormed.registered found, alive_iff.mpr ⟨caller, ticket, found, rfl⟩⟩

/-- A caller joins the queue of a semaphore in use. -/
theorem WellFormed.join (wellFormed : permits.WellFormed) {kept : AList fun _ : κ => Nat}
    (still : permits.Kept kept) {caller other : ι} {shared : Ticket κ}
    (fresh : permits.tickets.lookup caller = none)
    (used : permits.tickets.lookup other = some shared) :
    WellFormed { permits with
      semaphores := kept
      tickets := permits.tickets.insert caller { shared with holds := false } } where
  registered {user ticket} found := by
    rcases AList.lookup_insert_eq_some.mp found with ⟨rfl, rfl⟩ | ⟨own, found⟩
    · have registered := still.used used
      exact registered
    · exact still.used found
  own left right := wellFormed.own (still.registered left) (still.registered right)
  created found := wellFormed.created (still.registered found)
  permit {user ticket} found := by
    rcases AList.lookup_insert_eq_some.mp found with ⟨rfl, rfl⟩ | ⟨own, found⟩
    · exact (wellFormed.permit used).of_insert fresh rfl rfl rfl
    · exact (wellFormed.permit found).of_insert fresh rfl rfl rfl

/-- A caller makes a semaphore for a key that nobody has a ticket for. -/
theorem WellFormed.make (wellFormed : permits.WellFormed) {kept : AList fun _ : κ => Nat}
    (still : permits.Kept kept) {key : κ} (fresh : permits.tickets.lookup caller = none)
    (unused : ∀ {other ticket}, permits.tickets.lookup other = some ticket → ticket.key ≠ key) :
    WellFormed
      { semaphores := kept.insert key permits.created
        tickets := permits.tickets.insert caller
          { key, semaphore := permits.created, holds := false }
        available := Function.update permits.available permits.created 1
        created := permits.created + 1 } := by
  have old {other : κ} {semaphore : Nat} (found : kept.lookup other = some semaphore) :
      semaphore < permits.created := wellFormed.created (still.registered found)
  have used {user : ι} {ticket : Ticket κ} (found : permits.tickets.lookup user = some ticket) :
      ticket.semaphore ≠ permits.created := Nat.ne_of_lt (old (still.used found))
  constructor
  · intro user ticket found
    rcases AList.lookup_insert_eq_some.mp found with ⟨rfl, rfl⟩ | ⟨own, found⟩
    · exact AList.lookup_insert _
    · exact (AList.lookup_insert_ne (unused found)).trans (still.used found)
  · intro left right semaphore found found'
    rcases AList.lookup_insert_eq_some.mp found with ⟨rfl, rfl⟩ | ⟨-, kept_left⟩ <;>
      rcases AList.lookup_insert_eq_some.mp found' with ⟨rfl, same⟩ | ⟨-, kept_right⟩
    · rfl
    · exact absurd (old kept_right) (Nat.lt_irrefl _)
    · exact absurd same (Nat.ne_of_lt (old kept_left))
    · exact wellFormed.own (still.registered kept_left) (still.registered kept_right)
  · intro other semaphore found
    rcases AList.lookup_insert_eq_some.mp found with ⟨rfl, rfl⟩ | ⟨own, found⟩
    · exact Nat.lt_succ_self _
    · exact Nat.lt_succ_of_lt (old found)
  · intro user ticket found
    rcases AList.lookup_insert_eq_some.mp found with ⟨rfl, rfl⟩ | ⟨own, found⟩
    · refine .inl ⟨Function.update_self .., ?_⟩
      rintro other ⟨held, there, held_eq, holds⟩
      rcases AList.lookup_insert_eq_some.mp there with ⟨rfl, rfl⟩ | ⟨own, there⟩
      · cases holds
      · exact used there held_eq
    · exact (wellFormed.permit found).of_insert fresh rfl rfl (Function.update_of_ne (used found) ..)

theorem WellFormed.request (wellFormed : permits.WellFormed)
    (fresh : permits.tickets.lookup caller = none) (key : κ) (prune : Bool) :
    (permits.request caller key prune).WellFormed := by
  have still := wellFormed.kept prune
  rw [Permits.request]
  cases current : (permits.semaphores.lookup key).filter permits.alive with
  | some semaphore =>
      obtain ⟨there, alive⟩ := Option.filter_eq_some_iff.mp current
      obtain ⟨other, shared, used, rfl⟩ := alive_iff.mp alive
      obtain rfl : shared.key = key := wellFormed.own (wellFormed.registered used) there
      exact wellFormed.join still fresh used
  | none =>
      refine wellFormed.make still fresh fun {other ticket} found => ?_
      rintro rfl
      have alive : permits.alive ticket.semaphore = true := alive_iff.mpr ⟨other, ticket, found, rfl⟩
      simp [wellFormed.registered found, alive] at current

omit [DecidableEq κ] in
/-- Taking the permit of a semaphore that has it makes the caller its holder. -/
theorem OnePermit.take (one : permits.OnePermit ticket.semaphore)
    (free : 0 < permits.available ticket.semaphore)
    (tickets : after.tickets = permits.tickets.insert caller { ticket with holds := true })
    (available : after.available ticket.semaphore = permits.available ticket.semaphore - 1) :
    after.OnePermit ticket.semaphore := by
  obtain ⟨one_eq, nobody⟩ := one.resolve_right fun taken => by omega
  refine .inr ⟨by omega, caller, ⟨{ ticket with holds := true }, ?_, rfl, rfl⟩, ?_⟩
  · rw [tickets, AList.lookup_insert]
  · rintro other ⟨held, found, same, holds⟩
    by_contra own
    rw [tickets, AList.lookup_insert_ne own] at found
    exact nobody other ⟨held, found, same, holds⟩

theorem WellFormed.acquire (wellFormed : permits.WellFormed) (caller : ι) :
    (permits.acquire caller).WellFormed := by
  rw [Permits.acquire]
  cases found : permits.tickets.lookup caller with
  | none => exact wellFormed
  | some ticket =>
      dsimp only
      split
      · rename_i granted
        obtain ⟨waiting, free⟩ := granted
        refine ⟨fun {user held} there => ?_, wellFormed.own, wellFormed.created,
          fun {user held} there => ?_⟩
        · rcases AList.lookup_insert_eq_some.mp there with ⟨rfl, rfl⟩ | ⟨-, kept⟩
          · have registered := wellFormed.registered found
            exact registered
          · exact wellFormed.registered kept
        · by_cases same : held.semaphore = ticket.semaphore
          · rw [same]
            exact (wellFormed.permit found).take free rfl (Function.update_self ..)
          · have kept : permits.tickets.lookup user = some held := by
              rcases AList.lookup_insert_eq_some.mp there with ⟨rfl, rfl⟩ | ⟨-, kept⟩
              · exact absurd rfl same
              · exact kept
            refine (wellFormed.permit kept).frame caller
              (fun other own => AList.lookup_insert_ne own) ?_ ?_ (Function.update_of_ne same ..)
            · rintro ⟨held', there', same', -⟩
              rw [found] at there'
              obtain rfl := Option.some.inj there'
              exact same same'.symm
            · rintro ⟨held', there', same', -⟩
              rcases AList.lookup_insert_eq_some.mp there' with ⟨-, rfl⟩ | ⟨other, -⟩
              · exact same same'.symm
              · exact other rfl
      · exact wellFormed

theorem WellFormed.release (wellFormed : permits.WellFormed) (caller : ι) :
    (permits.release caller).WellFormed := by
  rw [Permits.release]
  cases found : permits.tickets.lookup caller with
  | none => exact wellFormed
  | some ticket =>
      have still {user : ι} {held : Ticket κ}
          (there : (permits.tickets.erase caller).lookup user = some held) :
          user ≠ caller ∧ permits.tickets.lookup user = some held := by
        have own : user ≠ caller := by
          rintro rfl
          rw [AList.lookup_erase] at there
          cases there
        rw [AList.lookup_erase_ne own] at there
        exact ⟨own, there⟩
      refine ⟨fun there => wellFormed.registered (still there).2, wellFormed.own,
        wellFormed.created, fun {user held} there => ?_⟩
      obtain ⟨-, there⟩ := still there
      by_cases returns : ticket.holds = true ∧ held.semaphore = ticket.semaphore
      · obtain ⟨holds, same⟩ := returns
        rcases wellFormed.permit found with ⟨-, nobody⟩ | ⟨taken, holder, -, only⟩
        · exact absurd ⟨ticket, found, rfl, holds⟩ (nobody caller)
        · refine .inl ⟨?_, fun other ⟨held', there', same', holds'⟩ => ?_⟩
          · dsimp only
            rw [same, if_pos holds, Function.update_self, taken]
          · obtain ⟨own, there'⟩ := still there'
            have mine := only caller ⟨ticket, found, rfl, holds⟩
            exact own ((only other ⟨held', there', same'.trans same, holds'⟩).trans mine.symm)
      · refine (wellFormed.permit there).frame caller
          (fun other own => AList.lookup_erase_ne own) ?_
          (not_holdsOf fun held left => absurd rfl (still left).1) ?_
        · rintro ⟨held', there', same', holds'⟩
          rw [found] at there'
          obtain rfl := Option.some.inj there'
          exact returns ⟨holds', same'.symm⟩
        · dsimp only
          split
          · exact Function.update_of_ne (fun same => returns ⟨‹_›, same⟩) ..
          · rfl

/-! ### Who has what -/

theorem standing_request (permits : Permits κ ι) (caller : ι) (key : κ) (prune : Bool) :
    (permits.request caller key prune).standing caller = some (key, false) := by
  rw [standing_eq_some, Permits.request]
  split <;> exact ⟨_, AList.lookup_insert _, rfl, rfl⟩

theorem standing_request_of_ne {other : ι} (own : other ≠ caller) (key : κ) (prune : Bool) :
    (permits.request caller key prune).standing other = permits.standing other := by
  rw [standing, standing, Permits.request]
  split <;> rw [AList.lookup_insert_ne own]

omit [DecidableEq κ] in
theorem standing_acquire_of_ne {other : ι} (own : other ≠ caller) :
    (permits.acquire caller).standing other = permits.standing other := by
  rw [standing, standing, Permits.acquire]
  cases permits.tickets.lookup caller with
  | none => rfl
  | some ticket =>
      dsimp only
      split
      · rw [AList.lookup_insert_ne own]
      · rfl

omit [DecidableEq κ] in
theorem standing_release (permits : Permits κ ι) (caller : ι) :
    (permits.release caller).standing caller = none := by
  rw [standing, Permits.release]
  cases found : permits.tickets.lookup caller with
  | none => rw [found, Option.map_none]
  | some ticket => rw [AList.lookup_erase, Option.map_none]

omit [DecidableEq κ] in
theorem standing_release_of_ne {other : ι} (own : other ≠ caller) :
    (permits.release caller).standing other = permits.standing other := by
  rw [standing, standing, Permits.release]
  cases permits.tickets.lookup caller with
  | none => rfl
  | some ticket => rw [AList.lookup_erase_ne own]

end

end Permits
