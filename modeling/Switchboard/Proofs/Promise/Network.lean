import Mathlib.Logic.Function.Basic
import Switchboard.Proofs.Promise.Session

/-!
# Networks of promises

Programs that only connect promises: they create deferreds, register handlers that do nothing but
give an answer, and settle each deferred once at most. Promises have names here, as the same
program can be run in many orders and the machine numbers promises in the order of creation.

- `Action`: what such a program does; `Orderly`: nothing is used before it was created.
- `Network.run`: a program in some order, with any number of host jobs in between.
- `Resolves`: what each promise is resolved with, told without any order. It is the least relation
  that is closed under the four rules, so promises that only wait for one another have no outcome.

A handler of a network is a function from outcomes to answers. It may answer with a promise by name, but
does nothing else, and so the order in which handlers run has nothing to act on except the promises. A
network is run by the machine all the same: `perform` and `turn` are the operations of sessions, with
the names translated to the numbers of the moment.
-/

namespace Switchboard.Promise

/-- What a promise is resolved with, or the cause of its rejection; `ν` is the type of names. -/
inductive Answer (ν α ε : Type)
  | error (cause : ε)
  | value (v : α)
  | promise (n : ν)

namespace Answer

variable {ν α ε : Type}

def ofSettlement : Settlement α ε → Answer ν α ε
  | .fulfilled v => .value v
  | .rejected c => .error c

theorem ofSettlement_injective :
    Function.Injective (ofSettlement : Settlement α ε → Answer ν α ε) := by
  rintro (v | c) (v' | c') h
  · exact congrArg _ (value.inj h)
  · cases h
  · cases h
  · exact congrArg _ (error.inj h)

def Mentions (m : ν) : Answer ν α ε → Prop
  | .promise n => n = m
  | _ => False

@[simp] theorem mentions_error (m : ν) (c : ε) : ¬ (.error c : Answer ν α ε).Mentions m := id

@[simp] theorem mentions_value (m : ν) (v : α) : ¬ (.value v : Answer ν α ε).Mentions m := id

@[simp] theorem mentions_promise (m n : ν) : (.promise n : Answer ν α ε).Mentions m ↔ n = m :=
  Iff.rfl

/-- The outcome that is meant, if the name in it is known. -/
def outcome? (names : ν → Option PromiseId) : Answer ν α ε → Option (Outcome α ε)
  | .error c => some (.error c)
  | .value v => some (.ok (.value v))
  | .promise n => (names n).map fun p => .ok (.promise p)

end Answer

/-- The answer of a registration to an outcome, which it passes on if it has no handler for it. -/
def Handlers.reply {ν α ε : Type} (code : Handlers α ε (Answer ν α ε)) :
    Settlement α ε → Answer ν α ε
  | .fulfilled v => (code.onFulfilled.map (· v)).getD (.value v)
  | .rejected c => (code.onRejected.map (· c)).getD (.error c)

inductive Action (ν α ε : Type)
  | deferred (n : ν)
  /-- `n` is the dependent of a registration on `on`. -/
  | register (n on : ν) (code : Handlers α ε (Answer ν α ε))
  /-- The first use of the deferred `n`. -/
  | settle (n : ν) (o : Answer ν α ε)

variable {ν α ε : Type}

/-! ### Orders of actions -/

def Action.name? : Action ν α ε → Option ν
  | .deferred n => some n
  | .register n _ _ => some n
  | .settle _ _ => none

/-- The names of the promises that the actions create. -/
def created (as : List (Action ν α ε)) : List ν := as.filterMap Action.name?

/-- The action is possible after the actions `as`. -/
def Action.AllowedAfter (as : List (Action ν α ε)) : Action ν α ε → Prop
  | .deferred n => n ∉ created as
  | .register n on code =>
    n ∉ created as ∧ on ∈ created as ∧ ∀ x m, (code.reply x).Mentions m → m ∈ created as
  | .settle n o =>
    .deferred n ∈ as ∧ (∀ o', .settle n o' ∉ as) ∧ ∀ m, o.Mentions m → m ∈ created as

/-- Each action is possible after those before it. -/
def Orderly (as : List (Action ν α ε)) : Prop := ∀ l a, l ++ [a] <+: as → a.AllowedAfter l

theorem orderly_nil : Orderly ([] : List (Action ν α ε)) := by
  intro l a h
  simp at h

theorem orderly_concat (as : List (Action ν α ε)) (a : Action ν α ε) :
    Orderly (as ++ [a]) ↔ Orderly as ∧ a.AllowedAfter as := by
  constructor
  · intro h
    exact ⟨fun l b hl => h l b (hl.trans (List.prefix_append _ _)), h as a List.prefix_rfl⟩
  · rintro ⟨h, ha⟩ l b hl
    rcases List.prefix_concat_iff.mp hl with heq | hl
    · obtain ⟨rfl, hb⟩ := List.append_inj' heq rfl
      obtain rfl : b = a := by simpa using hb
      exact ha
    · exact h l b hl

theorem created_concat (as : List (Action ν α ε)) (a : Action ν α ε) :
    created (as ++ [a]) = created as ++ a.name?.toList := by
  cases ha : a.name? <;> simp [created, ha]

theorem mem_created {as : List (Action ν α ε)} {n : ν} :
    n ∈ created as ↔ ∃ a ∈ as, a.name? = some n := List.mem_filterMap

/-- What handlers mention was created, whenever they run. -/
theorem Orderly.created_of_mentions {as : List (Action ν α ε)} (h : Orderly as) {n on m : ν}
    {code : Handlers α ε (Answer ν α ε)} (hmem : .register n on code ∈ as) {x : Settlement α ε}
    (hm : (code.reply x).Mentions m) : m ∈ created as := by
  obtain ⟨l, r, rfl⟩ := List.append_of_mem hmem
  have hallowed := h l (.register n on code) ⟨r, by simp⟩
  obtain ⟨b, hb, hname⟩ := mem_created.mp (hallowed.2.2 x m hm)
  exact mem_created.mpr ⟨b, List.mem_append_left _ hb, hname⟩

/-! ### Running a network -/

structure Network (ν α ε : Type) where
  session : Session α ε (Handlers α ε (Answer ν α ε)) Empty
  names : ν → Option PromiseId
  resolvers : ν → Option ResolverId

/-- An action, or a job of the host. -/
inductive Move (ν α ε : Type)
  | act (a : Action ν α ε)
  | turn

def Move.action? : Move ν α ε → Option (Action ν α ε)
  | .act a => some a
  | .turn => none

/-- The actions of a schedule, in order. -/
def actions (ms : List (Move ν α ε)) : List (Action ν α ε) := ms.filterMap Move.action?

namespace Network

def empty : Network ν α ε := ⟨.empty, fun _ => none, fun _ => none⟩

variable [Cause ε]

def perform [DecidableEq ν] (s : Network ν α ε) : Action ν α ε → Network ν α ε
  | .deferred n =>
    { session := s.session.defer
      names := Function.update s.names n (some s.session.machine.slots.size)
      resolvers := Function.update s.resolvers n (some s.session.machine.resolvers.size) }
  | .register n on code =>
    match s.names on with
    | some p =>
      { s with
        session := s.session.register p code
        names := Function.update s.names n (some s.session.machine.slots.size) }
    | none => s
  | .settle n o =>
    match s.resolvers n, o.outcome? s.names with
    | some r, some out => { s with session := s.session.via r out }
    | _, _ => s

/-- The host runs the next job. A handler that is called gives its answer. -/
def turn (s : Network ν α ε) : Network ν α ε :=
  let t := s.session.turn
  match s.session.machine.next?, t.calls with
  -- A handler was called, and its outcome is the answer.
  | some (.deliver (.handler code _) x, _), .handler d :: cs =>
    match (code.reply x).outcome? s.names with
    | some out => { s with session := { t with calls := cs }.conclude d out }
    | none => { s with session := t }
  | _, _ => { s with session := t }

variable [DecidableEq ν]

def move (s : Network ν α ε) : Move ν α ε → Network ν α ε
  | .act a => s.perform a
  | .turn => s.turn

/-- Runs a schedule. -/
def run (ms : List (Move ν α ε)) : Network ν α ε := ms.foldl move empty

/-- The outcome of the promise with this name. -/
def settlement? (s : Network ν α ε) (n : ν) : Option (Settlement α ε) :=
  (s.names n).bind s.session.machine.settlement?

/-- The state of the promise with this name, if there is one. -/
def state? (s : Network ν α ε) (n : ν) : Option State := (s.names n).map s.session.machine.state

end Network

/-! ### The least solution -/

/-- Among the things that the promise `n` is resolved with, one after the other, is `o`. -/
inductive Resolves [Cause ε] (as : List (Action ν α ε)) : ν → Answer ν α ε → Prop
  | settle {n o} (h : .settle n o ∈ as) : Resolves as n o
  | reply {n on code x} (h : .register n on code ∈ as) (hon : Resolves as on (.ofSettlement x)) :
      Resolves as n (code.reply x)
  | self {n} (h : Resolves as n (.promise n)) :
      Resolves as n (.error (Cause.ofFault .selfResolution))
  | follow {n m x} (h : Resolves as n (.promise m)) (hne : n ≠ m)
      (hm : Resolves as m (.ofSettlement x)) : Resolves as n (.ofSettlement x)

/-- More actions resolve more. -/
theorem Resolves.mono [Cause ε] {as bs : List (Action ν α ε)} (hsub : as ⊆ bs) {n : ν}
    {o : Answer ν α ε} (h : Resolves as n o) : Resolves bs n o := by
  induction h with
  | settle h => exact .settle (hsub h)
  | reply h _ ih => exact .reply (hsub h) ih
  | self _ ih => exact .self ih
  | follow _ hne _ ih ihm => exact .follow ih hne ihm

end Switchboard.Promise
