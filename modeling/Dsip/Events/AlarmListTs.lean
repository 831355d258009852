import Dsip.Events.AlarmList

/-!
# The alarm list in TypeScript

Every timer is evaluated anew after every event, and after every report inside one
(`retime`). Keys and gateway ids are compared by code points (`cmpStr`).
-/

namespace Dsip.Events.Ts

open Dsip.Lib

/-- `SEVERITY_RANK` and `rank`. -/
def rank (severity : Option String) : Nat :=
  match severity with
  | none => 0
  | some s =>
    if s = "indeterminate" then 0
    else if s = "warning" then 1
    else if s = "minor" then 2
    else if s = "major" then 3
    else if s = "critical" then 4
    else 0

/-- `cmpStr`, on the code points. -/
def cmpStr : List Char → List Char → Int
  | x :: xs, y :: ys =>
    let d := (x.toNat : Int) - y.toNat
    if d ≠ 0 then d else cmpStr xs ys
  | xs, ys => xs.length - ys.length

/-- The first difference that there is. -/
def orElse (d : Int) (e : Int) : Int := if d ≠ 0 then d else e

def cmpKey (a b : AlarmKey) : Int :=
  let (r, rest) := ofLex a
  let (r', rest') := ofLex b
  let (t, q) := ofLex rest
  let (t', q') := ofLex rest'
  orElse (cmpStr r.toList r'.toList) (orElse (cmpStr t.toList t'.toList) (cmpStr q.toList q'.toList))

structure Alarm where
  key : AlarmKey
  severity : Option String
  cleared : Bool
  operator : String
  count : Nat
  escalated : Bool
  due : Option Int
  deriving DecidableEq

structure AlarmList where
  now : Int
  policy : Option AlarmPolicy
  alarms : Dict AlarmKey Alarm
  gateways : Dict String GatewayWatch

namespace AlarmList

def init (now : Int) (policy : Option AlarmPolicy) : AlarmList where
  now := now
  policy := policy
  alarms := ∅
  gateways := ∅

/-- One alarm in `retime`. -/
def retimed (now : Int) (policy : Option AlarmPolicy) (a : Alarm) : Alarm :=
  match policy with
  | some p =>
    if !a.cleared && a.operator = "none" && !a.escalated &&
        rank (some p.minSeverity) ≤ rank a.severity then
      if a.due = none then { a with due := some (now + p.afterS) } else a
    else { a with due := none }
  | none => { a with due := none }

def retime (l : AlarmList) : AlarmList := { l with alarms := l.alarms.map (retimed l.now l.policy) }

def set (l : AlarmList) (k : AlarmKey) (a : Alarm) : AlarmList := { l with alarms := l.alarms.insert k a }

def report (l : AlarmList) (r : AlarmReport) : AlarmList × List AlarmEmit :=
  let key := keyOf r.resource r.type r.qualifier
  match l.alarms.lookup key with
  | none =>
    if r.cleared then (l, [])
    else ((l.set key ⟨key, r.severity, false, "none", 1, false, none⟩).retime, [.raised key r.severity false])
  | some a =>
    let a := { a with count := a.count + 1 }
    if a.cleared then
      if r.cleared then (l.set key a, [])
      else
        ((l.set key { a with
            cleared := false, severity := r.severity, operator := "none", escalated := false }).retime,
          [.raised key r.severity true])
    else if r.cleared then ((l.set key { a with cleared := true }).retime, [.cleared key])
    else if r.severity ≠ a.severity then
      ((l.set key { a with severity := r.severity }).retime, [.changed key r.severity])
    else ((l.set key a).retime, [])

def ack (l : AlarmList) (e : AlarmAck) : AlarmList × List AlarmEmit :=
  let key := keyOf e.resource e.type e.qualifier
  if e.state ≠ "ack" ∧ e.state ≠ "closed" then (l, [])
  else
    match l.alarms.lookup key with
    | none => (l, [])
    | some a =>
      if a.operator = "closed" ∨ a.operator = e.state then (l, [])
      else (l.set key { a with operator := e.state }, [.operator a.key e.state e.sender])

def heartbeat (l : AlarmList) (gateway : String) (intervalS : Int) : AlarmList × List AlarmEmit :=
  let l := { l with gateways := l.gateways.insert gateway ⟨intervalS, l.now⟩ }
  match l.alarms.lookup (keyOf gateway silent (some "")) with
  | some a =>
    if !a.cleared then l.report ⟨gateway, silent, some "", none, true⟩ else (l, [])
  | none => (l, [])

/-- One gateway in `advance`. -/
def watch (l : AlarmList) (gateway : String) : AlarmList × List AlarmEmit :=
  match l.gateways.lookup gateway with
  | none => (l, [])
  | some g =>
    if (l.alarms.lookup (keyOf gateway silent (some ""))).all (·.cleared) ∧
        2 * g.intervalS < l.now - g.last then
      l.report ⟨gateway, silent, some "", some "major", false⟩
    else (l, [])

/-- The gateways in the order of their ids. -/
def gatewayIds (l : AlarmList) : List String :=
  l.gateways.keys.insertionSort fun a b => cmpStr a.toList b.toList ≤ 0

/-- The alarms whose time has come, by time and key. -/
def dueAlarms (l : AlarmList) : List Alarm :=
  (l.alarms.values.filter fun a => a.due.any (· ≤ l.now)).insertionSort fun a b =>
    orElse (a.due.getD 0 - b.due.getD 0) (cmpKey a.key b.key) ≤ 0

/-- One alarm in `advance`. -/
def escalate (l : AlarmList) (key : AlarmKey) : AlarmList × List AlarmEmit :=
  match l.alarms.lookup key with
  | some a => (l.set key { a with escalated := true, due := none }, [.escalate a.key a.severity])
  | none => (l, [])

def advance (l : AlarmList) (s : Int) : AlarmList × List AlarmEmit :=
  let l := { l with now := l.now + s }
  let watched := foldEmit watch l l.gatewayIds
  let escalated := foldEmit escalate watched.1 (watched.1.dueAlarms.map (·.key))
  (escalated.1, watched.2 ++ escalated.2)

def step (l : AlarmList) (event : AlarmEvent) : AlarmList × List AlarmEmit :=
  let (l, out) :=
    match event with
    | .report r => l.report r
    | .ack e => l.ack e
    | .heartbeat gateway intervalS => l.heartbeat gateway intervalS
    | .advance s => l.advance s
  (l.retime, out)

def snapshot (l : AlarmList) : List AlarmView :=
  (l.alarms.values.insertionSort fun a b => cmpKey a.key b.key ≤ 0).map fun a =>
    ⟨a.key, a.severity, a.cleared, a.operator, a.count, a.due⟩

def observe (l : AlarmList) : List AlarmEvent → List (List AlarmEmit × List AlarmView)
  | [] => []
  | event :: events =>
    ((l.step event).2, (l.step event).1.snapshot) :: (l.step event).1.observe events

end AlarmList

end Dsip.Events.Ts
