import Urn.Foundation.IndexLoop
import Urn.Foundation.Numeral

/-!
# Flags of the command line

The flags which all back ends know, and the lists of settings that a command line
can be made of.
-/

namespace Urn

inductive Flag
  | threads
  | clientPort
  | peerPort
deriving DecidableEq

namespace Flag

/-- The name in the messages of the libuv back end. -/
def name : Flag → List Char
  | threads => "threads".toList
  | clientPort => "client.port".toList
  | peerPort => "peer.port".toList

def text : Flag → List Char
  | threads => "--threads".toList
  | clientPort => "--client.port".toList
  | peerPort => "--peer.port".toList

theorem text_injective : Function.Injective text := by
  intro left right
  cases left <;> cases right <;> decide

/-- The comparisons of an argument with the flags, in their order. -/
def of (arg : List Char) : Option Flag :=
  if arg = threads.text then
    some threads
  else if arg = clientPort.text then
    some clientPort
  else if arg = peerPort.text then
    some peerPort
  else
    none

theorem of_eq_some_iff {arg : List Char} {flag : Flag} : of arg = some flag ↔ arg = flag.text := by
  constructor
  · intro known
    unfold of at known
    split_ifs at known with isThreads isClientPort isPeerPort
    · exact Option.some.inj known ▸ isThreads
    · exact Option.some.inj known ▸ isClientPort
    · exact Option.some.inj known ▸ isPeerPort
  · rintro rfl
    cases flag <;> decide

@[simp]
theorem of_text (flag : Flag) : of flag.text = some flag := of_eq_some_iff.mpr rfl

end Flag

structure Setting where
  flag : Flag
  value : List Char
deriving DecidableEq

namespace Setting

/-- Each setting is two arguments, the flag and the value. -/
def render (settings : List Setting) : List (List Char) :=
  settings.flatMap fun setting => [setting.flag.text, setting.value]

@[simp]
theorem render_nil : render [] = [] := rfl

@[simp]
theorem render_cons (setting : Setting) (settings : List Setting) :
    render (setting :: settings) = setting.flag.text :: setting.value :: render settings := rfl

theorem render_injective : Function.Injective render := by
  intro left right same
  induction left generalizing right with
  | nil =>
      cases right with
      | nil => rfl
      | cons setting right => simp at same
  | cons setting left ih =>
      cases right with
      | nil => simp at same
      | cons other right =>
          simp only [render_cons, List.cons.injEq] at same
          rcases same with ⟨flags, values, rest⟩
          have flag_eq := Flag.text_injective flags
          have setting_eq : setting = other := by
            cases setting
            cases other
            simp_all
          rw [setting_eq, ih rest]

/-- The value of the last occurrence of the flag. -/
def last (flag : Flag) (settings : List Setting) : Option (List Char) :=
  (settings.filterMap fun setting =>
    if setting.flag = flag then some setting.value else none).getLast?

@[simp]
theorem last_nil (flag : Flag) : last flag [] = none := rfl

theorem last_cons (flag : Flag) (setting : Setting) (settings : List Setting) :
    last flag (setting :: settings) =
      if setting.flag = flag then some ((last flag settings).getD setting.value)
      else last flag settings := by
  by_cases same : setting.flag = flag
  · rw [if_pos same]
    simp [last, same, List.getLast?_cons]
  · rw [if_neg same]
    simp [last, same]

theorem last_mem {flag : Flag} {settings : List Setting} {value : List Char}
    (isLast : last flag settings = some value) : ⟨flag, value⟩ ∈ settings := by
  have value_mem := List.mem_of_getLast? isLast
  rcases List.mem_filterMap.mp value_mem with ⟨setting, setting_mem, found⟩
  split at found
  · rename_i same
    rw [Option.some.injEq] at found
    subst same found
    exact setting_mem
  · contradiction

/-- A value is 65535 at most, and nothing but digits. -/
def Exact (setting : Setting) : Prop :=
  Numeral.IsNumber setting.value ∧ Numeral.value setting.value ≤ 65535

end Setting

end Urn
