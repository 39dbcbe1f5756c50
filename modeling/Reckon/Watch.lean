-- SUMMARY: State with listeners, which are told what changed and may change it again.
import Reckon.Value

/-!
# Watched state

Listeners are told the name of every variable that is written, deleted or
cleared. They are visited in the order in which they subscribed. A listener may
react, at its first notification, with commands of its own; these are carried
out, with all that follows from them, before the next listener is visited. A
listener that subscribes meanwhile is still visited, one that unsubscribes
before its turn is not, and one that does both comes last.

Commands and visits that are still to be done are kept in a list of tasks. A
reaction is used up when it starts, so the tasks come to an end.
-/

namespace Reckon

-- ---------------------------------------------------------------------------
-- Commands
-- ---------------------------------------------------------------------------

/-- An operation on watched state. -/
inductive Command where
  | get (name : Text)
  | has (name : Text)
  | set (name : Text) (v : Value)
  | delete (name : Text)
  | clear
  /-- Subscribes a listener, with its reaction to the first notification. -/
  | subscribe (id : Text) (reaction : List Command)
  | unsubscribe (id : Text)
deriving Inhabited

/-- What a command answers. -/
inductive Answer where
  | nothing
  | value (v : Option Value)
  | bool (b : Bool)

mutual

/-- The number of commands in a command, with those of a reaction. -/
def Command.weight : Command → Nat
  | .subscribe _ reaction => 1 + Command.weights reaction
  | _ => 1

def Command.weights : List Command → Nat
  | [] => 0
  | c :: cs => c.weight + Command.weights cs

end

-- ---------------------------------------------------------------------------
-- Watched state
-- ---------------------------------------------------------------------------

/-- A subscribed listener. Numbers tell the order of subscription. -/
structure Subscription where
  number : Nat
  id : Text

/-- State and its listeners. -/
structure Watched where
  values : Entries Value := []
  /-- In order of subscription. -/
  subscriptions : List Subscription := []
  /-- The number of the next subscription. -/
  next : Nat := 0
  /-- The reactions of all listeners so far; empty once used up. -/
  reactions : Entries (List Command) := []
  /-- The notifications so far as pairs of listener and name, the latest first. -/
  notified : List (Text × Text) := []

/-- Something still to be done. -/
inductive Task where
  | command (c : Command)
  /-- Tells the listeners from the given subscription number on about a name. -/
  | visit (name : Text) (start : Nat)

namespace Watched

/-- The first subscription that is not before `start`. -/
def listener? (w : Watched) (start : Nat) : Option Subscription :=
  w.subscriptions.find? fun s => start ≤ s.number

def isSubscribed (w : Watched) (id : Text) : Bool :=
  w.subscriptions.any fun s => s.id = id

/-- Subscribes a listener. Its reaction is taken from its first subscription. -/
def subscribe (w : Watched) (id : Text) (reaction : List Command) : Watched :=
  let reactions :=
    if Entries.contains w.reactions id then w.reactions else w.reactions ++ [(id, reaction)]
  if w.isSubscribed id then { w with reactions }
  else { w with
    reactions
    subscriptions := w.subscriptions ++ [⟨w.next, id⟩]
    next := w.next + 1 }

def unsubscribe (w : Watched) (id : Text) : Watched :=
  { w with subscriptions := w.subscriptions.filter fun s => s.id ≠ id }

/-- What a command answers in this state. -/
def answer (w : Watched) : Command → Answer
  | .get name => .value (Entries.get? w.values name)
  | .has name => .bool (Entries.contains w.values name)
  | .delete name => .bool (Entries.contains w.values name)
  | _ => .nothing

/-- The change that a command makes at once, and the names to tell the listeners
    about. -/
def apply (w : Watched) : Command → Watched × List Text
  | .get _ => (w, [])
  | .has _ => (w, [])
  | .set name v => ({ w with values := Entries.insert w.values name v }, [name])
  | .delete name =>
    if Entries.contains w.values name then
      ({ w with values := Entries.erase w.values name }, [name])
    else (w, [])
  | .clear => ({ w with values := [] }, Entries.keys w.values)
  | .subscribe id reaction => (w.subscribe id reaction, [])
  | .unsubscribe id => (w.unsubscribe id, [])

/-- Takes the reaction of a listener, which leaves it without one. -/
def takeReaction (reactions : Entries (List Command)) (id : Text) :
    List Command × Entries (List Command) :=
  match reactions with
  | [] => ([], [])
  | (k, cs) :: rest =>
    if k = id then (cs, (k, []) :: rest)
    else
      let (taken, rest) := takeReaction rest id
      (taken, (k, cs) :: rest)

-- ---------------------------------------------------------------------------
-- Carrying out tasks
-- ---------------------------------------------------------------------------

/-- The commands in reactions that are not used up. -/
def pendingWeight : Entries (List Command) → Nat
  | [] => 0
  | (_, cs) :: rest => Command.weights cs + pendingWeight rest

theorem pendingWeight_append (as bs : Entries (List Command)) :
    pendingWeight (as ++ bs) = pendingWeight as + pendingWeight bs := by
  induction as with
  | nil => simp [pendingWeight]
  | cons a as ih => simp [pendingWeight, ih]; omega

theorem pendingWeight_takeReaction (reactions : Entries (List Command)) (id : Text) :
    Command.weights (takeReaction reactions id).1 + pendingWeight (takeReaction reactions id).2 =
      pendingWeight reactions := by
  induction reactions with
  | nil => rfl
  | cons entry rest ih =>
    obtain ⟨k, cs⟩ := entry
    unfold takeReaction
    split
    · simp [pendingWeight, Command.weights]
    · simp only [pendingWeight]
      omega

/-- The commands in a list of tasks. -/
def commandWeight : List Task → Nat
  | [] => 0
  | .command c :: rest => c.weight + commandWeight rest
  | .visit _ _ :: rest => commandWeight rest

/-- The visits in a list of tasks, each with the listeners that it has before it. -/
def visitWeight (subscriptions : List Subscription) : List Task → Nat
  | [] => 0
  | .command _ :: rest => visitWeight subscriptions rest
  | .visit _ start :: rest =>
    1 + subscriptions.countP (fun s => start ≤ s.number) + visitWeight subscriptions rest

theorem commandWeight_commands (cs : List Command) (rest : List Task) :
    commandWeight (cs.map .command ++ rest) = Command.weights cs + commandWeight rest := by
  induction cs with
  | nil => simp [Command.weights]
  | cons c cs ih => simp [commandWeight, Command.weights, ih]; omega

theorem commandWeight_visits (names : List Text) (rest : List Task) :
    commandWeight (names.map (Task.visit · 0) ++ rest) = commandWeight rest := by
  induction names with
  | nil => rfl
  | cons name names ih => simpa [commandWeight] using ih

theorem visitWeight_commands (subscriptions : List Subscription) (cs : List Command)
    (rest : List Task) :
    visitWeight subscriptions (cs.map .command ++ rest) = visitWeight subscriptions rest := by
  induction cs with
  | nil => rfl
  | cons c cs ih => simpa [visitWeight] using ih

/-- A command brings in no more commands than it has. -/
theorem pendingWeight_apply (w : Watched) (c : Command) :
    pendingWeight (w.apply c).1.reactions < pendingWeight w.reactions + c.weight := by
  cases c with
  | subscribe id reaction =>
    simp only [apply, subscribe, Command.weight]
    split <;> split <;> simp only [pendingWeight_append, pendingWeight] <;> omega
  | delete name =>
    simp only [apply, Command.weight]
    split <;> simp
  | _ => simp [apply, unsubscribe, Command.weight]

theorem countP_visited {w : Watched} {start : Nat} {s : Subscription}
    (h : w.listener? start = some s) :
    w.subscriptions.countP (fun t => s.number + 1 ≤ t.number) <
      w.subscriptions.countP (fun t => start ≤ t.number) := by
  have hs : start ≤ s.number := by simpa using List.find?_some h
  have hmem : s ∈ w.subscriptions := List.mem_of_find?_eq_some h
  generalize w.subscriptions = l at hmem
  induction l with
  | nil => simp at hmem
  | cons t l ih =>
    have hmono : l.countP (fun t => s.number + 1 ≤ t.number) ≤
        l.countP (fun t => start ≤ t.number) :=
      List.countP_mono_left fun t _ ht => by simp at ht ⊢; omega
    simp only [List.countP_cons, decide_eq_true_eq]
    rcases List.mem_cons.1 hmem with rfl | hmem
    · rw [if_neg (by omega), if_pos hs]
      omega
    · have := ih hmem
      split <;> split <;> omega

/-- Tells a listener about a name: the notification is noted and the reaction
    used up. -/
def tell (w : Watched) (s : Subscription) (name : Text) : Watched :=
  { w with
    reactions := (takeReaction w.reactions s.id).2
    notified := (s.id, name) :: w.notified }

/-- Carries out tasks, and all that follows from them, in order. -/
def settle (w : Watched) (tasks : List Task) : Watched :=
  match tasks with
  | [] => w
  | .command c :: rest => (w.apply c).1.settle ((w.apply c).2.map (.visit · 0) ++ rest)
  | .visit name start :: rest =>
    match _hs : w.listener? start with
    | none => w.settle rest
    | some s =>
      (w.tell s name).settle ((takeReaction w.reactions s.id).1.map .command ++
        .visit name (s.number + 1) :: rest)
termination_by (pendingWeight w.reactions + commandWeight tasks, visitWeight w.subscriptions tasks)
decreasing_by
  · apply Prod.Lex.left
    have := pendingWeight_apply w c
    rw [commandWeight_visits]
    simp only [commandWeight]
    omega
  · apply Prod.Lex.right'
    · simp [commandWeight]
    · simp only [visitWeight]
      omega
  · apply Prod.Lex.right'
    · have := pendingWeight_takeReaction w.reactions s.id
      simp only [commandWeight_commands, commandWeight, tell]
      omega
    · have := countP_visited _hs
      rw [visitWeight_commands]
      simp only [visitWeight, tell]
      omega

/-- Carries out a command: its answer, the notifications in order, and the state
    afterwards. -/
def perform (w : Watched) (c : Command) : Answer × List (Text × Text) × Watched :=
  let w' := { w with notified := [] }.settle [.command c]
  (w.answer c, w'.notified.reverse, w')

end Watched

end Reckon
