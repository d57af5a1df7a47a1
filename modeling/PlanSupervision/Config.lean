import PlanSupervision.Span

/-!
The settings of supervision. A zero interval, timeout or capacity is raised to the least
that works.
-/

namespace PlanSupervision

structure Config where
  watchdogWindow : Span
  watchdogPollInterval : Span
  escalationTimeout : Span
  beamStatusName : String
  busCapacity : Nat
  shutdownGrace : Span
deriving DecidableEq

namespace Config

def standard : Config :=
  { watchdogWindow := .ofSeconds 30
    watchdogPollInterval := .ofSeconds 1
    escalationTimeout := .ofSeconds 600
    beamStatusName := "wait_for_beam"
    busCapacity := 1024
    shutdownGrace := .ofSeconds 10 }

instance : Inhabited Config := ⟨standard⟩

def leastInterval : Span := .ofMillis 1

def pollInterval (config : Config) : Span := max config.watchdogPollInterval leastInterval

def escalationDelay (config : Config) : Span := max config.escalationTimeout leastInterval

def busSlots (config : Config) : Nat := max config.busCapacity 1

end Config

end PlanSupervision
