import Dsip.Lib.Dict
import Dsip.Lib.FoldEmit
import Mathlib.Data.Prod.Lex

/-!
# The alarm list

`AlarmList`: the list that every member computes from the content of an alarm
group, with the timers of the escalation agent and the watch on silent gateways.
Only the timer of the alarm that an event touches is set anew (`arm`).
-/

namespace Dsip.Events

open Dsip.Lib

/-- Resource, type and qualifier, compared in this order. -/
abbrev AlarmKey := String ×ₗ String ×ₗ String

def severities : List String := ["indeterminate", "warning", "minor", "major", "critical"]

/-- `rank`: a severity that is not known ranks as the lowest. -/
def rank (severity : Option String) : Nat :=
  match severity with
  | some s => (severities.idxOf? s).getD 0
  | none => 0

def silent : String := "dsip-gateway-silent"

def operatorStates : List String := ["ack", "closed"]

structure AlarmPolicy where
  minSeverity : String
  afterS : Int
  deriving DecidableEq, Repr

structure AlarmReport where
  resource : String
  type : String
  qualifier : Option String
  severity : Option String
  cleared : Bool
  deriving DecidableEq, Repr

structure AlarmAck where
  resource : String
  type : String
  qualifier : Option String
  state : String
  sender : Option String
  deriving DecidableEq, Repr

inductive AlarmEvent where
  | report (r : AlarmReport)
  | ack (e : AlarmAck)
  | heartbeat (gateway : String) (intervalS : Int)
  | advance (s : Int)
  deriving DecidableEq, Repr

inductive AlarmEmit where
  | raised (key : AlarmKey) (severity : Option String) (reopened : Bool)
  | cleared (key : AlarmKey)
  | changed (key : AlarmKey) (severity : Option String)
  | operator (key : AlarmKey) (state : String) (sender : Option String)
  | escalate (key : AlarmKey) (severity : Option String)
  deriving DecidableEq

def keyOf (resource type : String) (qualifier : Option String) : AlarmKey :=
  toLex (resource, toLex (type, qualifier.getD ""))

structure Alarm where
  severity : Option String
  cleared : Bool
  operator : String
  count : Nat
  due : Option Int
  escalated : Bool
  deriving DecidableEq, Repr

structure GatewayWatch where
  intervalS : Int
  last : Int
  deriving DecidableEq, Repr

/-- What a snapshot says of an alarm. -/
structure AlarmView where
  key : AlarmKey
  severity : Option String
  cleared : Bool
  operator : String
  count : Nat
  escalationDue : Option Int
  deriving DecidableEq

structure AlarmList where
  now : Int
  policy : Option AlarmPolicy
  alarms : Dict AlarmKey Alarm
  gateways : Dict String GatewayWatch

namespace AlarmList

def init (now : Int) (policy : Option AlarmPolicy) : AlarmList where
  now := now
  policy := policy
  alarms := ∅
  gateways := ∅

/-- Whether an alarm has an escalation timer. -/
def isDue (policy : Option AlarmPolicy) (a : Alarm) : Bool :=
  policy.any fun p =>
    !a.cleared && a.operator = "none" && !a.escalated && rank (some p.minSeverity) ≤ rank a.severity

/-- `_arm`: start, keep or cancel the escalation timer. -/
def arm (l : AlarmList) (a : Alarm) : Alarm :=
  if isDue l.policy a then { a with due := a.due.or (l.policy.map fun p => l.now + p.afterS) }
  else { a with due := none }

def set (l : AlarmList) (k : AlarmKey) (a : Alarm) : AlarmList := { l with alarms := l.alarms.insert k a }

def report (l : AlarmList) (r : AlarmReport) : AlarmList × List AlarmEmit :=
  let k := keyOf r.resource r.type r.qualifier
  match l.alarms.lookup k with
  | none =>
    if r.cleared then (l, [])
    else
      (l.set k (l.arm ⟨r.severity, false, "none", 1, none, false⟩), [.raised k r.severity false])
  | some a =>
    let a := { a with count := a.count + 1 }
    if r.cleared then
      if a.cleared then (l.set k a, [])
      else (l.set k (l.arm { a with cleared := true }), [.cleared k])
    else if a.cleared then
      (l.set k (l.arm { a with
          cleared := false, severity := r.severity, operator := "none", escalated := false,
          due := none }),
        [.raised k r.severity true])
    else if r.severity = a.severity then (l.set k a, [])
    else (l.set k (l.arm { a with severity := r.severity }), [.changed k r.severity])

def ack (l : AlarmList) (e : AlarmAck) : AlarmList × List AlarmEmit :=
  let k := keyOf e.resource e.type e.qualifier
  match l.alarms.lookup k with
  | none => (l, [])
  | some a =>
    if e.state ∉ operatorStates ∨ a.operator = "closed" ∨ a.operator = e.state then (l, [])
    else (l.set k (l.arm { a with operator := e.state }), [.operator k e.state e.sender])

/-- The report that a gateway is silent, or is not. -/
def silence (gateway : String) (cleared : Bool) : AlarmReport where
  resource := gateway
  type := silent
  qualifier := some ""
  severity := if cleared then none else some "major"
  cleared := cleared

/-- Whether the silence alarm of a gateway is up. -/
def isSilent (l : AlarmList) (gateway : String) : Bool :=
  (l.alarms.lookup (keyOf gateway silent (some ""))).any fun a => !a.cleared

def heartbeat (l : AlarmList) (gateway : String) (intervalS : Int) : AlarmList × List AlarmEmit :=
  let l := { l with gateways := l.gateways.insert gateway ⟨intervalS, l.now⟩ }
  if l.isSilent gateway then l.report (silence gateway true) else (l, [])

/-- One gateway in `_advance`. -/
def watch (l : AlarmList) (gateway : String) : AlarmList × List AlarmEmit :=
  match l.gateways.lookup gateway with
  | none => (l, [])
  | some g =>
    if !l.isSilent gateway ∧ 2 * g.intervalS < l.now - g.last then l.report (silence gateway false)
    else (l, [])

/-- The timers that have run out, by time and key. -/
def dueTimers (l : AlarmList) : List (Int ×ₗ AlarmKey) :=
  (l.alarms.keys.filterMap fun k =>
    (((l.alarms.lookup k).bind (·.due)).filter (· ≤ l.now)).map fun due => toLex (due, k)).insertionSort
      (· ≤ ·)

/-- One timer in `_advance`. -/
def escalate (l : AlarmList) (k : AlarmKey) : AlarmList × List AlarmEmit :=
  match l.alarms.lookup k with
  | none => (l, [])
  | some a => (l.set k { a with due := none, escalated := true }, [.escalate k a.severity])

def advance (l : AlarmList) (s : Int) : AlarmList × List AlarmEmit :=
  let l := { l with now := l.now + s }
  let watched := foldEmit watch l l.gateways.sortedKeys
  let escalated := foldEmit escalate watched.1 (watched.1.dueTimers.map fun t => (ofLex t).2)
  (escalated.1, watched.2 ++ escalated.2)

def step (l : AlarmList) : AlarmEvent → AlarmList × List AlarmEmit
  | .report r => l.report r
  | .ack e => l.ack e
  | .heartbeat gateway intervalS => l.heartbeat gateway intervalS
  | .advance s => l.advance s

def snapshot (l : AlarmList) : List AlarmView :=
  l.alarms.sortedKeys.filterMap fun k =>
    (l.alarms.lookup k).map fun a => ⟨k, a.severity, a.cleared, a.operator, a.count, a.due⟩

/-- What is emitted, and the list after it, event by event. -/
def observe (l : AlarmList) : List AlarmEvent → List (List AlarmEmit × List AlarmView)
  | [] => []
  | event :: events =>
    ((l.step event).2, (l.step event).1.snapshot) :: (l.step event).1.observe events

end AlarmList

end Dsip.Events
