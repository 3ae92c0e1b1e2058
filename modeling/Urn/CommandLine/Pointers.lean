import Mathlib.Data.List.Induction
import Urn.CommandLine.Flags

/-!
# Command lines of the mmsg, uring and demi back ends

The three copies of `config::config` in `mmsg/relay.cpp`, `uring/relay.cpp` and
`demi/relay.cpp` keep pointers to the arguments.  A pointer is `none` when it is null,
as `argv[argc]` is.
-/

namespace Urn

namespace CommandLine

namespace Pointers

structure Config where
  threads : UInt16
  clientPort : Option (List Char)
  peerPort : Option (List Char)
deriving DecidableEq

inductive Fault
  /-- `atoi` gets a null pointer. -/
  | nullConversion
deriving DecidableEq

/-- A conversion from `int` to `uint16_t`. -/
def toUInt16 (number : ℤ) : UInt16 := UInt16.ofNat (number % 2 ^ 16).toNat

/-- What a known flag does with `argv[++i]`. -/
def store (config : Config) (flag : Flag) (next : Option (List Char)) : Except Fault Config :=
  match flag with
  | .threads =>
      match next with
      | none => .error .nullConversion
      | some value => .ok { config with threads := toUInt16 (Numeral.atoi value) }
  | .clientPort => .ok { config with clientPort := next }
  | .peerPort => .ok { config with peerPort := next }

/-- The body of the loop over the arguments. -/
def body : IndexLoop.Body Config (List Char) Fault := fun config arg next =>
  match Flag.of arg with
  | some flag =>
      match store config flag next with
      | .error fault => .error fault
      | .ok after => .ok (after, true)
  | none => .ok (config, false)

/-- `config::config`, with the default of `threads` as a parameter. -/
def config (threads : UInt16) (argv : List (List Char)) : Except Fault Config :=
  match IndexLoop.loop body argv 1 ⟨threads, some "3478".toList, some "3479".toList⟩ with
  | .error fault => .error fault
  | .ok config => .ok (if config.threads = 0 then { config with threads := 1 } else config)

def mmsgConfig (hardwareConcurrency : UInt32) (argv : List (List Char)) : Except Fault Config :=
  config hardwareConcurrency.toUInt16 argv

def uringConfig (hardwareConcurrency : UInt32) (argv : List (List Char)) : Except Fault Config :=
  config hardwareConcurrency.toUInt16 argv

def demiConfig (argv : List (List Char)) : Except Fault Config := config 1 argv

/-! ## The arguments one by one -/

/-- What the loop makes of one or two arguments. -/
inductive Token
  | setting (setting : Setting)
  /-- A known flag at the end of the vector. -/
  | dangling (flag : Flag)
  | unused (arg : List Char)
deriving DecidableEq

/-- From left to right, each known flag takes the argument after it for its value. -/
def tokens : List (List Char) → List Token
  | [] => []
  | [arg] =>
      match Flag.of arg with
      | some flag => [.dangling flag]
      | none => [.unused arg]
  | arg :: value :: rest =>
      match Flag.of arg with
      | some flag => .setting ⟨flag, value⟩ :: tokens rest
      | none => .unused arg :: tokens (value :: rest)

def settings (args : List (List Char)) : List Setting :=
  (tokens args).filterMap fun
    | .setting setting => some setting
    | _ => none

/-- No known flag stands at the end of the vector without a value. -/
def Complete (args : List (List Char)) : Prop := ∀ flag, Token.dangling flag ∉ tokens args

/-- How an argument vector begins: it ends, a known flag ends it, a known flag has a value,
or an argument is not used. -/
theorem tokens_cases {motive : List (List Char) → Prop} (nil : motive [])
    (dangling : ∀ flag : Flag, motive [flag.text])
    (setting : ∀ (flag : Flag) value rest, motive rest → motive (flag.text :: value :: rest))
    (unused : ∀ arg rest, Flag.of arg = none → motive rest → motive (arg :: rest))
    (args : List (List Char)) : motive args := by
  induction args using List.twoStepInduction with
  | nil => exact nil
  | singleton arg =>
      cases known : Flag.of arg with
      | none => exact unused arg [] known nil
      | some flag =>
          have arg_eq := Flag.of_eq_some_iff.mp known
          simpa only [arg_eq] using dangling flag
  | cons_cons arg value rest later next =>
      cases known : Flag.of arg with
      | none => exact unused arg (value :: rest) known (next value)
      | some flag =>
          have arg_eq := Flag.of_eq_some_iff.mp known
          simpa only [arg_eq] using setting flag value rest later

theorem tokens_cons_unused {arg : List Char} {rest : List (List Char)}
    (unknown : Flag.of arg = none) : tokens (arg :: rest) = .unused arg :: tokens rest := by
  cases rest <;> simp [tokens, unknown]

theorem settings_setting (flag : Flag) (value : List Char) (rest : List (List Char)) :
    settings (flag.text :: value :: rest) = ⟨flag, value⟩ :: settings rest := by
  simp [settings, tokens]

theorem settings_unused {arg : List Char} (unknown : Flag.of arg = none)
    (rest : List (List Char)) : settings (arg :: rest) = settings rest := by
  simp [settings, tokens_cons_unused unknown]

theorem not_complete_dangling (flag : Flag) : ¬Complete [flag.text] := by
  intro complete
  apply complete flag
  simp [tokens]

theorem complete_setting (flag : Flag) (value : List Char) (rest : List (List Char)) :
    Complete (flag.text :: value :: rest) ↔ Complete rest := by
  simp [Complete, tokens]

theorem complete_unused {arg : List Char} (unknown : Flag.of arg = none)
    (rest : List (List Char)) : Complete (arg :: rest) ↔ Complete rest := by
  simp [Complete, tokens_cons_unused unknown]

theorem settings_value_mem {args : List (List Char)} {setting : Setting}
    (setting_mem : setting ∈ settings args) : setting.value ∈ args := by
  induction args using tokens_cases with
  | nil => simp [settings, tokens] at setting_mem
  | dangling flag => simp [settings, tokens] at setting_mem
  | setting flag value rest ih =>
      rcases List.mem_cons.mp (settings_setting flag value rest ▸ setting_mem) with rfl | later
      · simp
      · simp [ih later]
  | unused arg rest unknown ih =>
      have later := settings_unused unknown rest ▸ setting_mem
      exact List.mem_cons_of_mem arg (ih later)

/-! ## What the loop stores -/

def Config.set (config : Config) (setting : Setting) : Config :=
  match setting.flag with
  | .threads => { config with threads := toUInt16 (Numeral.atoi setting.value) }
  | .clientPort => { config with clientPort := some setting.value }
  | .peerPort => { config with peerPort := some setting.value }

theorem store_some (config : Config) (flag : Flag) (value : List Char) :
    store config flag (some value) = .ok (config.set ⟨flag, value⟩) := by
  cases flag <;> rfl

theorem walk_complete {args : List (List Char)} (complete : Complete args) (config : Config) :
    IndexLoop.walk body false args config = .ok ((settings args).foldl Config.set config) := by
  induction args using tokens_cases generalizing config with
  | nil => rfl
  | dangling flag => exact absurd complete (not_complete_dangling flag)
  | setting flag value rest ih =>
      have later := ih ((complete_setting flag value rest).mp complete)
      simp [IndexLoop.walk, body, store_some, later, settings_setting]
  | unused arg rest unknown ih =>
      have later := ih ((complete_unused unknown rest).mp complete)
      simp [IndexLoop.walk, body, unknown, later, settings_unused unknown]

/-- The null pointer is converted or stored. -/
def UsesNull (result : Except Fault Config) : Prop :=
  result = .error .nullConversion ∨
    ∃ config, result = .ok config ∧ (config.clientPort = none ∨ config.peerPort = none)

theorem walk_incomplete {args : List (List Char)} (incomplete : ¬Complete args)
    (config : Config) : UsesNull (IndexLoop.walk body false args config) := by
  induction args using tokens_cases generalizing config with
  | nil => exact absurd (fun flag => by simp [tokens]) incomplete
  | dangling flag =>
      cases flag with
      | threads =>
          left
          simp [IndexLoop.walk, body, store]
      | clientPort =>
          right
          simp [IndexLoop.walk, body, store]
      | peerPort =>
          right
          simp [IndexLoop.walk, body, store]
  | setting flag value rest ih =>
      have later := ih (fun complete => incomplete
        ((complete_setting flag value rest).mpr complete)) (config.set ⟨flag, value⟩)
      simpa [IndexLoop.walk, body, store_some] using later
  | unused arg rest unknown ih =>
      have later := ih (fun complete => incomplete ((complete_unused unknown rest).mpr complete))
        config
      simpa [IndexLoop.walk, body, unknown] using later

theorem foldl_threads (settings : List Setting) (config : Config) :
    (settings.foldl Config.set config).threads =
      ((Setting.last .threads settings).map fun value =>
        toUInt16 (Numeral.atoi value)).getD config.threads := by
  induction settings generalizing config with
  | nil => rfl
  | cons setting settings ih =>
      simp only [List.foldl_cons, ih, Setting.last_cons]
      by_cases same : setting.flag = .threads
      · cases Setting.last .threads settings <;> simp [same, Config.set]
      · rcases setting with ⟨_ | _ | _, value⟩ <;> simp_all [Config.set]

/-- A port is the default or the value of a setting. -/
theorem foldl_ports (settings : List Setting) (config : Config) :
    ((settings.foldl Config.set config).clientPort = config.clientPort ∨
        (settings.foldl Config.set config).clientPort ∈ settings.map fun s => some s.value) ∧
      ((settings.foldl Config.set config).peerPort = config.peerPort ∨
        (settings.foldl Config.set config).peerPort ∈ settings.map fun s => some s.value) := by
  induction settings generalizing config with
  | nil => simp
  | cons setting settings ih =>
      have later := ih (config.set setting)
      rcases setting with ⟨flag, value⟩
      cases flag <;>
        simp only [Config.set, List.foldl_cons, List.map_cons, List.mem_cons] at later ⊢
      · tauto
      · tauto
      · tauto

/-! ## Malformed input -/

/-- Only arguments are converted and stored, and the thread count is the number that has been
written; the guard for zero apart, no number is replaced by another one. -/
structure Safe (args : List (List Char)) (result : Except Fault Config) : Prop where
  converts : result ≠ .error .nullConversion
  stores : ∀ config, result = .ok config →
    (config.clientPort = some "3478".toList ∨ config.clientPort ∈ args.map some) ∧
      (config.peerPort = some "3479".toList ∨ config.peerPort ∈ args.map some)
  counts : ∀ config value number, result = .ok config →
    Setting.last .threads (settings args) = some value → Numeral.IsDecimal value number →
    number ≠ 0 → (config.threads.toNat : ℤ) = number

/-- The value of the last `--threads` is not a number which a thread count cannot be. -/
def InRange (args : List (List Char)) : Prop :=
  ∀ value number, Setting.last .threads (settings args) = some value →
    Numeral.IsDecimal value number → 0 ≤ number ∧ number ≤ 65535

theorem toUInt16_toNat {number : ℤ} (lower : 0 ≤ number) (upper : number ≤ 65535) :
    ((toUInt16 number).toNat : ℤ) = number := by
  simp only [toUInt16, UInt16.toNat_ofNat']
  omega

theorem config_of_complete (threads : UInt16) {argv : List (List Char)}
    (complete : Complete argv.tail) :
    ∃ config', config threads argv = .ok config' ∧
      config'.threads =
        (let stored := ((Setting.last .threads (settings argv.tail)).map fun value =>
            toUInt16 (Numeral.atoi value)).getD threads
          if stored = 0 then 1 else stored) ∧
      (config'.clientPort = some "3478".toList ∨ config'.clientPort ∈ argv.tail.map some) ∧
      (config'.peerPort = some "3479".toList ∨ config'.peerPort ∈ argv.tail.map some) := by
  have walked := walk_complete complete ⟨threads, some "3478".toList, some "3479".toList⟩
  have counted := foldl_threads (settings argv.tail)
    ⟨threads, some "3478".toList, some "3479".toList⟩
  have ports := foldl_ports (settings argv.tail)
    ⟨threads, some "3478".toList, some "3479".toList⟩
  have arguments : ∀ port, port ∈ (settings argv.tail).map (fun s => some s.value) →
      port ∈ argv.tail.map some := by
    intro port port_mem
    rcases List.mem_map.mp port_mem with ⟨setting, setting_mem, rfl⟩
    exact List.mem_map_of_mem (settings_value_mem setting_mem)
  simp only [config, IndexLoop.loop_eq_walk, List.drop_one, walked, Except.ok.injEq,
    exists_eq_left', counted]
  refine ⟨?_, ?_, ?_⟩
  · simp only [← counted]
    split <;> simp_all
  · have clientPort := ports.1.imp_right (arguments _)
    split <;> exact clientPort
  · have peerPort := ports.2.imp_right (arguments _)
    split <;> exact peerPort

theorem usesNull_of_incomplete (threads : UInt16) {argv : List (List Char)}
    (incomplete : ¬Complete argv.tail) : UsesNull (config threads argv) := by
  have walked := walk_incomplete incomplete ⟨threads, some "3478".toList, some "3479".toList⟩
  simp only [config, IndexLoop.loop_eq_walk, List.drop_one]
  rcases walked with failed | ⟨after, walked, nullPort⟩
  · left
    simp only [failed]
  · right
    simp only [walked, Except.ok.injEq, exists_eq_left']
    split <;> exact nullPort

theorem not_safe_of_usesNull {args : List (List Char)} {result : Except Fault Config}
    (usesNull : UsesNull result) : ¬Safe args result := by
  intro safe
  rcases usesNull with failed | ⟨config, returned, nullPort⟩
  · exact safe.converts failed
  · have stores := safe.stores config returned
    rcases nullPort with isNull | isNull
    · simp [isNull] at stores
    · simp [isNull] at stores

theorem config_safe_iff (threads : UInt16) (argv : List (List Char)) :
    Safe argv.tail (config threads argv) ↔ Complete argv.tail ∧ InRange argv.tail := by
  by_cases complete : Complete argv.tail
  · rcases config_of_complete threads complete with ⟨after, returned, counted, ports⟩
    constructor
    · intro safe
      refine ⟨complete, ?_⟩
      intro value number isLast decimal
      by_cases isZero : number = 0
      · omega
      · have same := safe.counts after value number returned isLast decimal isZero
        have bound := after.threads.toNat_lt
        omega
    · rintro ⟨_, inRange⟩
      refine ⟨by simp [returned], ?_, ?_⟩
      · intro config same
        simp only [returned, Except.ok.injEq] at same
        exact same ▸ ports
      · intro config value number same isLast decimal notZero
        simp only [returned, Except.ok.injEq] at same
        subst same
        have range := inRange value number isLast decimal
        have converted := decimal.atoi (by omega) (by omega)
        have stored := toUInt16_toNat range.1 range.2
        simp only [isLast, Option.map_some, Option.getD_some, converted] at counted
        have positive : toUInt16 number ≠ 0 := by
          intro isZero
          rw [isZero] at stored
          exact notZero stored.symm
        rw [counted, if_neg positive]
        exact stored
  · constructor
    · intro safe
      exact absurd safe (not_safe_of_usesNull (usesNull_of_incomplete threads complete))
    · intro both
      exact absurd both.1 complete

/-- The three copies of the parser are safe exactly if no known flag comes last without a value
and the number of threads fits 16 bits. -/
theorem configs_safe_iff_complete_and_in_range (hardwareConcurrency : UInt32)
    (argv : List (List Char)) :
    (Safe argv.tail (mmsgConfig hardwareConcurrency argv) ↔
        Complete argv.tail ∧ InRange argv.tail) ∧
      (Safe argv.tail (uringConfig hardwareConcurrency argv) ↔
        Complete argv.tail ∧ InRange argv.tail) ∧
      (Safe argv.tail (demiConfig argv) ↔ Complete argv.tail ∧ InRange argv.tail) := by
  refine ⟨?_, ?_, ?_⟩
  · exact config_safe_iff hardwareConcurrency.toUInt16 argv
  · exact config_safe_iff hardwareConcurrency.toUInt16 argv
  · exact config_safe_iff 1 argv

/-- A port flag at the end stores the null pointer, and 65540 threads are 4 threads. -/
theorem mmsg_config_not_safe :
    ¬Safe ["--client.port".toList] (mmsgConfig 4 ["urn".toList, "--client.port".toList]) ∧
      ¬Safe ["--threads".toList, "65540".toList]
        (mmsgConfig 4 ["urn".toList, "--threads".toList, "65540".toList]) := by
  constructor
  · intro safe
    have complete := ((config_safe_iff 4 ["urn".toList, "--client.port".toList]).mp safe).1
    exact not_complete_dangling .clientPort complete
  · intro safe
    have inRange :=
      ((config_safe_iff 4 ["urn".toList, "--threads".toList, "65540".toList]).mp safe).2
    have decimal : Numeral.IsDecimal "65540".toList 65540 :=
      ⟨.plus, [], _, rfl, Or.inl rfl, by decide, by decide⟩
    have outside := inRange "65540".toList 65540 (by decide) decimal
    omega

end Pointers

end CommandLine

end Urn
