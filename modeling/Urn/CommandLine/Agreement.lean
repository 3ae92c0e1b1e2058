import Urn.CommandLine.Libuv
import Urn.CommandLine.Pointers

/-!
# What the command lines mean

The workers that `relay::run` of the libuv, mmsg and uring back ends starts for a
command line, and the ports that their sockets are bound to.
-/

namespace Urn

namespace CommandLine

open Numeral (IsNumber)

/-- A worker, with the ports of its two sockets. -/
structure Worker where
  index : ℕ
  clientPort : ℕ
  peerPort : ℕ
deriving DecidableEq

namespace Libuv

def run (config : Config) : List Worker :=
  (List.range config.threads.toNat).map fun id =>
    ⟨id, config.clientPort.toNat, config.peerPort.toNat⟩

/-- The workers for an argument vector, if the vector is accepted. -/
def start (hardwareConcurrency : UInt32) (argv : List (List Char)) : Option (List Worker) :=
  (config hardwareConcurrency argv).toOption.map run

end Libuv

namespace Pointers

/-- The port of the address that `getaddrinfo` gives for a numeric service. -/
def bindableAddress (port : List Char) : ℕ := Numeral.value port

/-- `relay::run` of mmsg and of uring: the main thread is worker 0. -/
def run (config : Config) : List Worker :=
  let threadCount := max 1 config.threads.toNat
  let localClientAddress := bindableAddress "3478".toList
  let localPeerAddress := bindableAddress "3479".toList
  let worker (index : ℕ) : Worker := ⟨index, localClientAddress, localPeerAddress⟩
  (List.range' 1 (threadCount - 1)).map worker ++ [worker 0]

def mmsgStart (hardwareConcurrency : UInt32) (argv : List (List Char)) : Option (List Worker) :=
  (mmsgConfig hardwareConcurrency argv).toOption.map run

def uringStart (hardwareConcurrency : UInt32) (argv : List (List Char)) : Option (List Worker) :=
  (uringConfig hardwareConcurrency argv).toOption.map run

end Pointers

/-! ## What the settings ask for -/

/-- A number between 1 and 65535. -/
def WellFormed (setting : Setting) : Prop :=
  IsNumber setting.value ∧ 1 ≤ Numeral.value setting.value ∧
    Numeral.value setting.value ≤ 65535

def number (flag : Flag) (otherwise : ℕ) (settings : List Setting) : ℕ :=
  ((Setting.last flag settings).map Numeral.value).getD otherwise

/-- As many workers as the settings ask for, and all of them on the ports asked for. -/
structure Follows (hardwareConcurrency : UInt32) (settings : List Setting)
    (started : Option (List Worker)) : Prop where
  count : started.map List.length =
    some (number .threads (max 1 hardwareConcurrency.toUInt16.toNat) settings)
  ports : ∀ workers ∈ started, ∀ worker ∈ workers,
    worker.clientPort = number .clientPort 3478 settings ∧
      worker.peerPort = number .peerPort 3479 settings

section WellFormed

variable {settings : List Setting}

theorem number_of_last (wellFormed : ∀ s ∈ settings, WellFormed s) {flag : Flag}
    {value : List Char} (isLast : Setting.last flag settings = some value) :
    IsNumber value ∧ 1 ≤ Numeral.value value ∧ Numeral.value value ≤ 65535 :=
  wellFormed _ (Setting.last_mem isLast)

theorem lastNumber_toNat (wellFormed : ∀ s ∈ settings, WellFormed s) (flag : Flag)
    (otherwise : UInt16) :
    ((Libuv.lastNumber flag settings).getD otherwise).toNat =
      number flag otherwise.toNat settings := by
  unfold Libuv.lastNumber number
  cases isLast : Setting.last flag settings with
  | none => rfl
  | some value =>
      have range := number_of_last wellFormed isLast
      have fits : Numeral.value value < 2 ^ 16 := by omega
      simpa using Nat.mod_eq_of_lt fits

theorem max_one_number (wellFormed : ∀ s ∈ settings, WellFormed s) (otherwise : ℕ) :
    number .threads (max 1 otherwise) settings = max 1 (number .threads otherwise settings) := by
  unfold number
  cases isLast : Setting.last .threads settings with
  | none => rfl
  | some value =>
      have range := number_of_last wellFormed isLast
      simp only [Option.map_some, Option.getD_some]
      omega

theorem atLeastOne_toNat (threads : UInt16) :
    (if threads = 0 then 1 else threads).toNat = max 1 threads.toNat := by
  by_cases isZero : threads = 0
  · simp [isZero]
  · have positive : threads.toNat ≠ 0 := by
      intro toNat_eq
      exact isZero (UInt16.toNat_inj.mp toNat_eq)
    simp only [isZero, if_false]
    omega

theorem libuv_follows (hardwareConcurrency : UInt32) (program : List Char)
    (wellFormed : ∀ s ∈ settings, WellFormed s) :
    Follows hardwareConcurrency settings
      (Libuv.start hardwareConcurrency (program :: Setting.render settings)) := by
  have returned : Libuv.config hardwareConcurrency (program :: Setting.render settings) = _ :=
    Libuv.config_of_exact rfl fun s s_mem => ⟨(wellFormed s s_mem).1, (wellFormed s s_mem).2.2⟩
  have threads := lastNumber_toNat wellFormed .threads hardwareConcurrency.toUInt16
  have clientPort := lastNumber_toNat wellFormed .clientPort 3478
  have peerPort := lastNumber_toNat wellFormed .peerPort 3479
  constructor
  · simp only [Libuv.start, returned, Libuv.run, Libuv.expected, Except.toOption, Option.map_some,
      List.length_map, List.length_range, atLeastOne_toNat, threads, max_one_number wellFormed]
  · intro workers started worker worker_mem
    simp only [Libuv.start, returned, Except.toOption, Option.map_some, Option.mem_def,
      Option.some.injEq] at started
    subst started
    rcases List.mem_map.mp worker_mem with ⟨id, _, rfl⟩
    exact ⟨clientPort, peerPort⟩

theorem settings_render (settings : List Setting) :
    Pointers.settings (Setting.render settings) = settings := by
  induction settings with
  | nil => rfl
  | cons setting settings ih =>
      rw [Setting.render_cons, Pointers.settings_setting, ih]

theorem complete_render (settings : List Setting) :
    Pointers.Complete (Setting.render settings) := by
  induction settings with
  | nil =>
      intro flag
      simp [Pointers.tokens]
  | cons setting settings ih => exact (Pointers.complete_setting _ _ _).mpr ih

theorem atoi_stored {value : List Char} (isNumber : IsNumber value)
    (small : Numeral.value value ≤ 65535) :
    (Pointers.toUInt16 (Numeral.atoi value)).toNat = Numeral.value value := by
  have converted : Numeral.atoi value = Numeral.value value :=
    isNumber.isDecimal.atoi (by omega) (by omega)
  have stored : ((Pointers.toUInt16 (Numeral.value value)).toNat : ℤ) = Numeral.value value :=
    Pointers.toUInt16_toNat (by omega) (by omega)
  rw [converted]
  exact Int.ofNat_inj.mp stored

theorem run_length (config : Pointers.Config) :
    (Pointers.run config).length = max 1 config.threads.toNat := by
  simp only [Pointers.run, List.length_append, List.length_map, List.length_range',
    List.length_singleton]
  omega

/-- The ports of the configuration are not looked at. -/
theorem run_ports {config : Pointers.Config} {worker : Worker}
    (worker_mem : worker ∈ Pointers.run config) :
    worker.clientPort = 3478 ∧ worker.peerPort = 3479 := by
  have ports : Pointers.bindableAddress "3478".toList = 3478 ∧
      Pointers.bindableAddress "3479".toList = 3479 := by
    decide
  simp only [Pointers.run, List.mem_append, List.mem_map, List.mem_singleton] at worker_mem
  rcases worker_mem with ⟨index, _, rfl⟩ | rfl
  · exact ports
  · exact ports

theorem run_nonempty (config : Pointers.Config) : ∃ worker, worker ∈ Pointers.run config := by
  apply List.exists_mem_of_length_pos
  rw [run_length]
  omega

theorem pointers_follow_iff (wellFormed : ∀ s ∈ settings, WellFormed s)
    (hardwareConcurrency : UInt32) (program : List Char) :
    Follows hardwareConcurrency settings
        ((Pointers.config hardwareConcurrency.toUInt16
          (program :: Setting.render settings)).toOption.map Pointers.run) ↔
      number .clientPort 3478 settings = 3478 ∧ number .peerPort 3479 settings = 3479 := by
  have complete : Pointers.Complete (program :: Setting.render settings).tail :=
    complete_render settings
  rcases Pointers.config_of_complete hardwareConcurrency.toUInt16 complete with
    ⟨config, returned, counted, _⟩
  have threads : max 1 config.threads.toNat =
      number .threads (max 1 hardwareConcurrency.toUInt16.toNat) settings := by
    rw [counted, List.tail_cons, settings_render, max_one_number wellFormed]
    unfold number
    cases isLast : Setting.last .threads settings with
    | none =>
        simp only [Option.map_none, Option.getD_none, atLeastOne_toNat]
        omega
    | some value =>
        have range := number_of_last wellFormed isLast
        have stored := atoi_stored range.1 range.2.2
        simp only [Option.map_some, Option.getD_some, atLeastOne_toNat, stored]
        omega
  constructor
  · intro follows
    rcases run_nonempty config with ⟨worker, worker_mem⟩
    have wanted := follows.ports (Pointers.run config) (by simp [returned, Except.toOption]) worker
      worker_mem
    have bound := run_ports worker_mem
    omega
  · rintro ⟨clientPort, peerPort⟩
    constructor
    · simp [returned, Except.toOption, run_length, threads]
    · intro workers started worker worker_mem
      have workers_eq : Pointers.run config = workers := by
        simpa [returned, Except.toOption] using started
      subst workers_eq
      have bound := run_ports worker_mem
      omega

/-- All back ends follow the settings exactly if these name the default ports, which mmsg and
io_uring bind in any case. -/
theorem back_ends_agree_iff_default_ports (wellFormed : ∀ s ∈ settings, WellFormed s)
    (hardwareConcurrency : UInt32) (program : List Char) :
    let argv := program :: Setting.render settings
    (Follows hardwareConcurrency settings (Libuv.start hardwareConcurrency argv) ∧
        Follows hardwareConcurrency settings (Pointers.mmsgStart hardwareConcurrency argv) ∧
        Follows hardwareConcurrency settings (Pointers.uringStart hardwareConcurrency argv)) ↔
      number .clientPort 3478 settings = 3478 ∧ number .peerPort 3479 settings = 3479 := by
  intro argv
  have libuv := libuv_follows hardwareConcurrency program wellFormed
  have pointers := pointers_follow_iff wellFormed hardwareConcurrency program
  constructor
  · rintro ⟨_, mmsg, _⟩
    exact pointers.mp mmsg
  · intro defaults
    exact ⟨libuv, pointers.mpr defaults, pointers.mpr defaults⟩

end WellFormed

theorem back_ends_agree_three_threads :
    let argv := "urn".toList :: Setting.render [⟨.threads, "3".toList⟩, ⟨.peerPort, "3479".toList⟩]
    Follows 8 [⟨.threads, "3".toList⟩, ⟨.peerPort, "3479".toList⟩] (Pointers.mmsgStart 8 argv) := by
  intro argv
  have wellFormed : ∀ s ∈ [(⟨.threads, "3".toList⟩ : Setting), ⟨.peerPort, "3479".toList⟩],
      WellFormed s := by
    intro setting setting_mem
    simp only [List.mem_cons, List.not_mem_nil, or_false] at setting_mem
    rcases setting_mem with rfl | rfl
    · exact ⟨by decide, by decide, by decide⟩
    · exact ⟨by decide, by decide, by decide⟩
  have agree := (back_ends_agree_iff_default_ports wellFormed 8 "urn".toList).mpr
    ⟨by decide, by decide⟩
  exact agree.2.1

/-- `--client.port 5000` is bound by libuv only. -/
theorem back_ends_disagree_client_port :
    let settings : List Setting := [⟨.clientPort, "5000".toList⟩]
    let argv := "urn".toList :: Setting.render settings
    (∀ s ∈ settings, WellFormed s) ∧
      ¬(Follows 8 settings (Libuv.start 8 argv) ∧
        Follows 8 settings (Pointers.mmsgStart 8 argv) ∧
        Follows 8 settings (Pointers.uringStart 8 argv)) := by
  intro settings argv
  have wellFormed : ∀ s ∈ settings, WellFormed s := by
    intro setting setting_mem
    rcases List.mem_singleton.mp setting_mem with rfl
    exact ⟨by decide, by decide, by decide⟩
  refine ⟨wellFormed, ?_⟩
  rintro ⟨_, mmsg, _⟩
  have ports := ((pointers_follow_iff wellFormed 8 "urn".toList).mp mmsg).1
  exact absurd ports (by decide)

end CommandLine

end Urn
