import Mathlib.Data.List.Induction
import Urn.CommandLine.Flags

/-!
# Command line of the libuv back end

`config::config` and `parse_numeric_argument` of `libuv/relay.cpp`.
-/

namespace Urn

namespace CommandLine

namespace Libuv

open Numeral (ConversionError IsNumber Reads stoull)

inductive Exception
  | runtimeError (what : List Char)
  /-- `std::out_of_range`, of `std::stoull` or of `std::deque::at`. -/
  | outOfRange
deriving DecidableEq

/-- `parse_numeric_argument` for a result of type `uint16_t`. -/
def parseNumericArgument (name value : List Char) : Except Exception UInt16 :=
  match stoull value with
  | .ok ull =>
      if ull ≤ 65535 then
        .ok (UInt16.ofNat ull)
      else
        .error (.runtimeError (name ++ ": out of range (".toList ++ value ++ ")".toList))
  | .error .invalidArgument =>
      .error (.runtimeError (name ++ ": invalid argument (".toList ++ value ++ ")".toList))
  | .error .outOfRange => .error .outOfRange

@[ext]
structure Config where
  threads : UInt16
  clientPort : UInt16
  peerPort : UInt16
deriving DecidableEq

namespace Config

def get (config : Config) : Flag → UInt16
  | .threads => config.threads
  | .clientPort => config.clientPort
  | .peerPort => config.peerPort

def set (config : Config) (flag : Flag) (number : UInt16) : Config :=
  match flag with
  | .threads => { config with threads := number }
  | .clientPort => { config with clientPort := number }
  | .peerPort => { config with peerPort := number }

theorem get_set (config : Config) (flag other : Flag) (number : UInt16) :
    (config.set flag number).get other = if flag = other then number else config.get other := by
  cases flag <;> cases other <;> rfl

end Config

/-- The body of the loop over the arguments. -/
def body : IndexLoop.Body Config (List Char) Exception := fun config arg next =>
  match Flag.of arg with
  | some flag =>
      match next with
      | none => .error .outOfRange
      | some value =>
          match parseNumericArgument flag.name value with
          | .error exception => .error exception
          | .ok number => .ok (config.set flag number, true)
  | none => .error (.runtimeError ("invalid flag: '".toList ++ arg ++ "'".toList))

def Config.defaults (hardwareConcurrency : UInt32) : Config :=
  ⟨hardwareConcurrency.toUInt16, 3478, 3479⟩

/-- What follows the loop: there is one thread at least. -/
def Config.atLeastOne (config : Config) : Config :=
  if config.threads = 0 then { config with threads := 1 } else config

def config (hardwareConcurrency : UInt32) (argv : List (List Char)) : Except Exception Config :=
  match IndexLoop.loop body argv.tail 0 (.defaults hardwareConcurrency) with
  | .error exception => .error exception
  | .ok config => .ok config.atLeastOne

/-! ## The values that are accepted -/

/-- The text starts with a number that is 65535 at most, modulo `2 ^ 64` after a minus. -/
def Accepted (value : List Char) : Prop :=
  ∃ sign magnitude, Reads value sign magnitude ∧ magnitude < 2 ^ 64 ∧
    sign.apply magnitude % 2 ^ 64 ≤ 65535

/-- The number which is stored for an accepted value. -/
def stored (value : List Char) : UInt16 :=
  match stoull value with
  | .ok ull => UInt16.ofNat ull
  | .error _ => 0

theorem parseNumericArgument_of_accepted (name : List Char) {value : List Char}
    (accepted : Accepted value) :
    parseNumericArgument name value = .ok (stored value) := by
  rcases accepted with ⟨sign, magnitude, reads, small, inRange⟩
  have converted : stoull value = .ok (sign.apply magnitude % 2 ^ 64).toNat := by
    apply Numeral.stoull_eq_ok_iff.mpr
    refine ⟨sign, magnitude, reads, small, ?_⟩
    omega
  have fits : (sign.apply magnitude % 2 ^ 64).toNat ≤ 65535 := by omega
  simp only [parseNumericArgument, stored, converted, if_pos fits]

theorem accepted_of_parseNumericArgument {name value : List Char} {number : UInt16}
    (parsed : parseNumericArgument name value = .ok number) : Accepted value := by
  simp only [parseNumericArgument] at parsed
  split at parsed
  · rename_i ull converted
    rcases Numeral.stoull_eq_ok_iff.mp converted with ⟨sign, magnitude, reads, small, ull_eq⟩
    refine ⟨sign, magnitude, reads, small, ?_⟩
    split at parsed
    · omega
    · contradiction
  · contradiction
  · contradiction

theorem accepted_of_exact {setting : Setting} (isExact : setting.Exact) :
    Accepted setting.value := by
  have small := isExact.2
  refine ⟨.plus, Numeral.value setting.value, Numeral.reads_of_read isExact.1.read, ?_, ?_⟩
  · omega
  · simp only [Numeral.Sign.apply]
    omega

theorem exact_of_accepted {setting : Setting} (accepted : Accepted setting.value)
    (number : IsNumber setting.value) : setting.Exact := by
  rcases accepted with ⟨sign, magnitude, reads, small, inRange⟩
  have isRead := Numeral.read_of_reads reads
  rw [number.read, Option.some.injEq, Prod.mk.injEq] at isRead
  rcases isRead with ⟨rfl, rfl⟩
  simp only [Numeral.Sign.apply] at inRange
  exact ⟨number, by omega⟩

theorem stored_of_exact {setting : Setting} (isExact : setting.Exact) :
    stored setting.value = UInt16.ofNat (Numeral.value setting.value) := by
  have small := isExact.2
  have converted := isExact.1.stoull (by omega)
  simp only [stored, converted]

/-! ## The loop over the arguments -/

/-- The settings are stored one after the other. -/
def storeAll (config : Config) (settings : List Setting) : Config :=
  settings.foldl (fun config setting => config.set setting.flag (stored setting.value)) config

theorem storeAll_get (config : Config) (settings : List Setting) (flag : Flag) :
    (storeAll config settings).get flag =
      ((Setting.last flag settings).map stored).getD (config.get flag) := by
  induction settings generalizing config with
  | nil => rfl
  | cons setting settings ih =>
      have later := ih (config.set setting.flag (stored setting.value))
      simp only [storeAll, List.foldl_cons] at later ⊢
      rw [later, Setting.last_cons, Config.get_set]
      by_cases same : setting.flag = flag
      · cases Setting.last flag settings <;> simp [same]
      · simp [same]

theorem walk_render {settings : List Setting} (accepted : ∀ s ∈ settings, Accepted s.value)
    (config : Config) :
    IndexLoop.walk body false (Setting.render settings) config =
      .ok (storeAll config settings) := by
  induction settings generalizing config with
  | nil => rfl
  | cons setting settings ih =>
      have parsed := parseNumericArgument_of_accepted setting.flag.name
        (accepted setting List.mem_cons_self)
      have rest := ih (fun s s_mem => accepted s (List.mem_cons_of_mem _ s_mem))
      simp [IndexLoop.walk, body, parsed, rest, storeAll]

theorem walk_ok {args : List (List Char)} {config after : Config}
    (walked : IndexLoop.walk body false args config = .ok after) :
    ∃ settings, args = Setting.render settings ∧ ∀ s ∈ settings, Accepted s.value := by
  induction args using List.twoStepInduction generalizing config with
  | nil => exact ⟨[], rfl, by simp⟩
  | singleton arg =>
      simp only [IndexLoop.walk, body, List.head?_nil] at walked
      split at walked
      · contradiction
      · rename_i failed
        split at failed <;> contradiction
  | cons_cons arg value args ih _ =>
      cases known : Flag.of arg with
      | none => simp [IndexLoop.walk, body, known] at walked
      | some flag =>
          cases parsed : parseNumericArgument flag.name value with
          | error exception => simp [IndexLoop.walk, body, known, parsed] at walked
          | ok number =>
              simp only [IndexLoop.walk, body, known, parsed, List.head?_cons] at walked
              rcases ih walked with ⟨settings, rfl, accepted⟩
              have arg_eq := Flag.of_eq_some_iff.mp known
              refine ⟨⟨flag, value⟩ :: settings, by simp [arg_eq], ?_⟩
              intro setting setting_mem
              rcases List.mem_cons.mp setting_mem with rfl | setting_mem
              · exact accepted_of_parseNumericArgument parsed
              · exact accepted setting setting_mem

/-! ## What is accepted -/

/-- The number which the last occurrence of the flag has. -/
def lastNumber (flag : Flag) (settings : List Setting) : Option UInt16 :=
  (Setting.last flag settings).map fun value => UInt16.ofNat (Numeral.value value)

def expected (hardwareConcurrency : UInt32) (settings : List Setting) : Config :=
  let threads := (lastNumber .threads settings).getD hardwareConcurrency.toUInt16
  ⟨if threads = 0 then 1 else threads, (lastNumber .clientPort settings).getD 3478,
    (lastNumber .peerPort settings).getD 3479⟩

theorem config_render (hardwareConcurrency : UInt32) {argv : List (List Char)}
    {settings : List Setting} (rendered : argv.tail = Setting.render settings)
    (accepted : ∀ s ∈ settings, Accepted s.value) :
    config hardwareConcurrency argv =
      .ok (storeAll (.defaults hardwareConcurrency) settings).atLeastOne := by
  have walked := walk_render accepted (.defaults hardwareConcurrency)
  simp only [config, IndexLoop.loop_eq_walk, List.drop_zero, rendered, walked]

theorem config_ok {hardwareConcurrency : UInt32} {argv : List (List Char)} {after : Config}
    (returned : config hardwareConcurrency argv = .ok after) :
    ∃ settings, argv.tail = Setting.render settings ∧ ∀ s ∈ settings, Accepted s.value := by
  simp only [config, IndexLoop.loop_eq_walk, List.drop_zero] at returned
  split at returned
  · contradiction
  · rename_i walked
    exact walk_ok walked

theorem storeAll_of_exact (hardwareConcurrency : UInt32) {settings : List Setting}
    (isExact : ∀ s ∈ settings, s.Exact) :
    (storeAll (.defaults hardwareConcurrency) settings).atLeastOne =
      expected hardwareConcurrency settings := by
  have last_stored (flag : Flag) :
      (Setting.last flag settings).map stored = lastNumber flag settings := by
    unfold lastNumber
    cases isLast : Setting.last flag settings with
    | none => rfl
    | some value =>
        exact congrArg some (stored_of_exact (isExact _ (Setting.last_mem isLast)))
  have numbers (flag : Flag) := storeAll_get (.defaults hardwareConcurrency) settings flag
  simp only [last_stored] at numbers
  generalize storeAll (.defaults hardwareConcurrency) settings = result at numbers
  have threads : result.threads = _ := numbers .threads
  have clientPort : result.clientPort = _ := numbers .clientPort
  have peerPort : result.peerPort = _ := numbers .peerPort
  simp only [Config.atLeastOne, expected, Config.get, Config.defaults]
    at threads clientPort peerPort ⊢
  rw [← threads, ← clientPort, ← peerPort]
  split <;> rfl

theorem config_of_exact {hardwareConcurrency : UInt32} {argv : List (List Char)}
    {settings : List Setting} (rendered : argv.tail = Setting.render settings)
    (isExact : ∀ s ∈ settings, s.Exact) :
    config hardwareConcurrency argv = .ok (expected hardwareConcurrency settings) := by
  have returned := config_render hardwareConcurrency rendered
    (fun s s_mem => accepted_of_exact (isExact s s_mem))
  exact returned.trans (congrArg Except.ok (storeAll_of_exact hardwareConcurrency isExact))

/-- The vector is accepted if it is well formed and only then, with the values that it has. -/
def ParsedExactly (hardwareConcurrency : UInt32) (argv : List (List Char)) : Prop :=
  ((∃ after, config hardwareConcurrency argv = .ok after) ↔
      ∃ settings, argv.tail = Setting.render settings ∧ ∀ s ∈ settings, s.Exact) ∧
    ∀ settings, argv.tail = Setting.render settings → (∀ s ∈ settings, s.Exact) →
      config hardwareConcurrency argv = .ok (expected hardwareConcurrency settings)

/-- Pairs of a known flag and an accepted value, of which one is more than digits. -/
def Lenient (args : List (List Char)) : Prop :=
  ∃ settings, args = Setting.render settings ∧ (∀ s ∈ settings, Accepted s.value) ∧
    ∃ s ∈ settings, ¬IsNumber s.value

theorem not_parsedExactly_of_lenient {hardwareConcurrency : UInt32} {argv : List (List Char)}
    (lenient : Lenient argv.tail) : ¬ParsedExactly hardwareConcurrency argv := by
  intro parsed
  rcases lenient with ⟨settings, rendered, accepted, setting, setting_mem, notNumber⟩
  have returned := config_render hardwareConcurrency rendered accepted
  rcases parsed.1.mp ⟨_, returned⟩ with ⟨others, renderedOthers, isExact⟩
  have same := Setting.render_injective (rendered.symm.trans renderedOthers)
  subst same
  exact notNumber (isExact setting setting_mem).1

/-- The arguments are taken for what they say unless `std::stoull` accepts a value which is no
number. -/
theorem parsed_exactly_iff_not_lenient (hardwareConcurrency : UInt32)
    (argv : List (List Char)) :
    ParsedExactly hardwareConcurrency argv ↔ ¬Lenient argv.tail := by
  constructor
  · intro parsed lenient
    exact not_parsedExactly_of_lenient lenient parsed
  · intro notLenient
    refine ⟨⟨?_, ?_⟩, ?_⟩
    · rintro ⟨after, returned⟩
      rcases config_ok returned with ⟨settings, rendered, accepted⟩
      refine ⟨settings, rendered, ?_⟩
      intro setting setting_mem
      apply exact_of_accepted (accepted setting setting_mem)
      by_contra notNumber
      exact notLenient ⟨settings, rendered, accepted, setting, setting_mem, notNumber⟩
    · rintro ⟨settings, rendered, isExact⟩
      exact ⟨_, config_of_exact rendered isExact⟩
    · intro settings rendered isExact
      exact config_of_exact rendered isExact

/-- A huge negative number selects port 1. -/
theorem not_parsed_exactly_negative_port :
    ¬ParsedExactly 4 ["urn".toList, "--peer.port".toList, "-18446744073709551615".toList] := by
  apply not_parsedExactly_of_lenient
  have isRead : Numeral.read "-18446744073709551615".toList =
      some (.minus, 18446744073709551615) := by
    decide +kernel
  refine ⟨[⟨.peerPort, "-18446744073709551615".toList⟩], rfl, ?_, _, List.mem_cons_self, ?_⟩
  · intro setting setting_mem
    rcases List.mem_singleton.mp setting_mem with rfl
    exact ⟨.minus, _, Numeral.reads_of_read isRead, by decide, by decide⟩
  · decide +kernel

end Libuv

end CommandLine

end Urn
