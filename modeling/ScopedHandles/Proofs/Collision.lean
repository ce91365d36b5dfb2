/-
**When fresh names collide.**

Handles and statements are named from two counters that know nothing of each other. A handle and a
statement can bear one name only if one stem is the other with a number behind it: `a` with the number
11 and `a1` with the number 1 are both called `a11`. Stems that differ may still be such a pair.

* `Names.draw` — the names that a row of requests gets.
* `Extends` — a stem that is another one with a number behind it.
* `Names.Behind.nodup_draw` — otherwise no name is issued twice.
* `names_distinct_iff` — and only otherwise.
-/

import Mathlib.Logic.Function.Basic
import Mathlib.Order.Bounds.Basic
import ScopedHandles.Proofs.Freshness

namespace ScopedHandles

/-! ### Numbers that begin with a number -/

namespace Counter

/-- Digits that are put to a number make it at least ten times as large. -/
theorem le_value_append (first : Text) {second : Text} (some : second ≠ []) :
    10 * value first + value second ≤ value (first ++ second) := by
  have sum : value (first ++ second) = 10 ^ second.length * value first + value second := by
    rw [value_eq, value_eq, value_eq, Nat.ofDigitChars_append, Nat.ofDigitChars_eq_ofDigitChars_zero]
  have power : 10 ≤ 10 ^ second.length :=
    Nat.le_self_pow (by rwa [Ne, List.length_eq_zero_iff]) 10
  have most := Nat.mul_le_mul_right (value first) power
  omega

/-- **What a number begins with is a number.** -/
theorem exists_of_begins {m : Nat} (positive : 0 < m) {front : Text} (some : front ≠ [])
    (begins : front <+: Nat.toDigits 10 m) : ∃ n, 0 < n ∧ front = Nat.toDigits 10 n := by
  induction m using Nat.strongRecOn with
  | _ m ih =>
    by_cases single : m < 10
    · obtain ⟨c, rest, rfl⟩ := List.exists_cons_of_ne_nil some
      rw [Nat.toDigits_of_lt_base single, List.cons_prefix_cons, List.prefix_nil] at begins
      obtain ⟨rfl, rfl⟩ := begins
      exact ⟨m, positive, (Nat.toDigits_of_lt_base single).symm⟩
    · have split := Nat.toDigits_of_base_le (b := 10) (n := m) (by decide) (by omega)
      rw [split, List.prefix_concat_iff] at begins
      rcases begins with whole | shorter
      · exact ⟨m, positive, whole.trans split.symm⟩
      · exact ih (m / 10) (by omega) (by omega) shorter

end Counter

/-! ### Stems that extend each other -/

/-- `other` is `stem` and a number, to which one more digit can be put. -/
def Extends (stem other : Text) : Prop :=
  ∃ n, 0 < n ∧ 10 * n + 1 ≤ Counter.limit ∧ other = stem ++ Nat.toDigits 10 n

/-- Whether a stem extends another is told by what stands behind it. -/
instance decidableExtends (stem other : Text) : Decidable (Extends stem other) :=
  decidable_of_iff (∃ digits ∈ after? stem other, 0 < Counter.value digits ∧
      10 * Counter.value digits + 1 ≤ Counter.limit ∧
        digits = Nat.toDigits 10 (Counter.value digits)) <| by
    constructor
    · rintro ⟨digits, behind, positive, bound, same⟩
      refine ⟨Counter.value digits, positive, bound, ?_⟩
      rw [← same]
      exact after?_eq_some_iff.mp behind
    · rintro ⟨n, positive, bound, rfl⟩
      refine ⟨Nat.toDigits 10 n, after?_eq_some_iff.mpr rfl, ?_⟩
      rw [Counter.value_toDigits]
      exact ⟨positive, bound, rfl⟩

theorem extends_of_split {stem more : Text} {m n : Nat} (some : more ≠ []) (positive : 0 < m)
    (bound : m ≤ Counter.limit) (least : 0 < n)
    (split : Nat.toDigits 10 m = more ++ Nat.toDigits 10 n) : Extends stem (stem ++ more) := by
  obtain ⟨k, kPositive, rfl⟩ := Counter.exists_of_begins positive some ⟨_, split.symm⟩
  have digits : Nat.toDigits 10 n ≠ [] := List.ne_nil_of_length_pos Nat.length_toDigits_pos
  have tenfold := Counter.le_value_append (Nat.toDigits 10 k) digits
  rw [← split, Counter.value_toDigits, Counter.value_toDigits, Counter.value_toDigits] at tenfold
  exact ⟨k, kPositive, by omega, rfl⟩

/-- **Names of two stems are different, unless one extends the other.** -/
theorem extends_of_eq {stem other : Text} {m n : Nat} (different : stem ≠ other) (mPositive : 0 < m)
    (mBound : m ≤ Counter.limit) (nPositive : 0 < n) (nBound : n ≤ Counter.limit)
    (same : stem ++ Nat.toDigits 10 m = other ++ Nat.toDigits 10 n) :
    Extends stem other ∨ Extends other stem := by
  have nonempty : ∀ {first second more : Text}, first ≠ second → second = first ++ more →
      more ≠ [] := by
    rintro first second more different rfl rfl
    exact different (List.append_nil first).symm
  rcases List.append_eq_append_iff.mp same with ⟨more, longer, split⟩ | ⟨more, longer, split⟩
  · have some := nonempty different longer
    subst longer
    exact .inl (extends_of_split some mPositive mBound nPositive split)
  · have some := nonempty different.symm longer
    subst longer
    exact .inr (extends_of_split some nPositive nBound mPositive split)

/-! ### Rows of requests -/

/-- What a name is requested for. -/
inductive Stock where
  | handles
  | statements
  deriving DecidableEq

namespace Names

/-- The counter of a stock. -/
def counter (names : Names) : Stock → Counter
  | .handles => names.handles
  | .statements => names.statements

/-- The next name of a stock. -/
def next (names : Names) : Stock → Option (Text × Names)
  | .handles => names.nextHandle
  | .statements => names.nextStatement

/-- The names that a row of requests gets. A request that gets none leaves the names as they are. -/
def draw : (requests : List Stock) → Names → List Text
  | [], _ => []
  | stock :: requests, names =>
    match names.next stock with
    | none => draw requests names
    | some (name, later) => name :: draw requests later

/-- A name comes from its own counter and leaves the other one alone. -/
theorem next_eq_some {names later : Names} {stock : Stock} {name : Text}
    (issued : names.next stock = some (name, later)) :
    ∃ counter, (names.counter stock).allocate = some (name, counter) ∧
      later.counter = Function.update names.counter stock counter := by
  cases stock with
  | handles =>
    obtain ⟨⟨_, handles⟩, allocated, pair⟩ := Option.map_eq_some_iff.mp issued
    obtain ⟨rfl, rfl⟩ := Prod.mk.inj pair
    refine ⟨handles, allocated, ?_⟩
    funext other
    cases other <;> rfl
  | statements =>
    obtain ⟨⟨_, statements⟩, allocated, pair⟩ := Option.map_eq_some_iff.mp issued
    obtain ⟨rfl, rfl⟩ := Prod.mk.inj pair
    refine ⟨statements, allocated, ?_⟩
    funext other
    cases other <;> rfl

/-- Counters with these stems that stand behind these numbers. -/
def Behind (stem : Stock → Text) (last : Stock → Nat) (names : Names) : Prop :=
  ∀ stock, names.counter stock = { stem := stem stock, next := Counter.after (last stock) }

namespace Behind

variable {stem : Stock → Text} {last : Stock → Nat} {names later : Names} {stock : Stock} {name : Text}

/-- **One request.** -/
theorem next (behind : names.Behind stem last) (issued : names.next stock = some (name, later)) :
    last stock < Counter.limit ∧ name = stem stock ++ Nat.toDigits 10 (last stock + 1) ∧
      later.Behind stem (Function.update last stock (last stock + 1)) := by
  obtain ⟨counter, allocated, moved⟩ := Names.next_eq_some issued
  rw [behind stock] at allocated
  obtain ⟨left, named, rfl⟩ := Counter.allocate_eq_some allocated
  refine ⟨left, named, fun other => ?_⟩
  rw [moved]
  by_cases same : other = stock
  · subst same
    rw [Function.update_self, Function.update_self]
  · rw [Function.update_of_ne same, Function.update_of_ne same]
    exact behind other

/-- A request gets a name while numbers are left. -/
theorem exists_next (behind : names.Behind stem last) (left : last stock < Counter.limit) :
    ∃ later, names.next stock = some (stem stock ++ Nat.toDigits 10 (last stock + 1), later) ∧
      later.Behind stem (Function.update last stock (last stock + 1)) := by
  have allocated : (names.counter stock).allocate = some (stem stock ++ Nat.toDigits 10 (last stock + 1),
      { stem := stem stock, next := Counter.after (last stock + 1) }) := by
    rw [behind stock, Counter.allocate, Counter.after, if_pos left]
    rfl
  have issued : ∃ later, names.next stock =
      some (stem stock ++ Nat.toDigits 10 (last stock + 1), later) := by
    cases stock with
    | handles => exact ⟨_, congrArg (Option.map _) allocated⟩
    | statements => exact ⟨_, congrArg (Option.map _) allocated⟩
  obtain ⟨later, issued⟩ := issued
  exact ⟨later, issued, (behind.next issued).2.2⟩

/-- Every name has the stem of its stock and a number behind the last one. -/
theorem exists_of_mem_draw {requests : List Stock} (behind : names.Behind stem last)
    (mem : name ∈ draw requests names) :
    ∃ stock n, last stock < n ∧ n ≤ Counter.limit ∧ name = stem stock ++ Nat.toDigits 10 n := by
  induction requests generalizing names last with
  | nil => cases mem
  | cons first requests ih =>
    rw [draw] at mem
    cases issued : names.next first with
    | none =>
      rw [issued] at mem
      exact ih behind mem
    | some pair =>
      obtain ⟨head, later⟩ := pair
      obtain ⟨left, named, moved⟩ := behind.next issued
      rw [issued] at mem
      rcases List.mem_cons.mp mem with rfl | mem
      · exact ⟨first, last first + 1, Nat.lt_succ_self _, left, named⟩
      · obtain ⟨stock, n, less, bound, same⟩ := ih moved mem
        refine ⟨stock, n, ?_, bound, same⟩
        by_cases own : stock = first
        · subst own
          rw [Function.update_self] at less
          omega
        · rwa [Function.update_of_ne own] at less

/-- **No name is issued twice**, if no stem extends another. -/
theorem nodup_draw (different : Function.Injective stem)
    (apart : ∀ stock other, ¬ Extends (stem stock) (stem other)) (behind : names.Behind stem last)
    (requests : List Stock) : (draw requests names).Nodup := by
  induction requests generalizing names last with
  | nil => exact .nil
  | cons first requests ih =>
    rw [draw]
    cases issued : names.next first with
    | none => exact ih behind
    | some pair =>
      obtain ⟨head, later⟩ := pair
      obtain ⟨left, named, moved⟩ := behind.next issued
      refine List.nodup_cons.mpr ⟨fun mem => ?_, ih moved⟩
      obtain ⟨stock, n, less, bound, other⟩ := moved.exists_of_mem_draw mem
      rw [named] at other
      by_cases own : first = stock
      · subst own
        rw [Function.update_self] at less
        have numbers := Counter.append_toDigits_inj.mp other
        omega
      · have stems : stem first ≠ stem stock := fun equal => own (different equal)
        rcases extends_of_eq stems (by omega) (by omega) (by omega) bound other with one | two
        · exact apart first stock one
        · exact apart stock first two

end Behind

end Names

/-! ### Validated settings -/

/-- The stem of the names of a stock. -/
def Settings.stem (settings : Settings) : Stock → Text
  | .handles => settings.handleStem.toList
  | .statements => settings.statementStem.toList

section Settings

variable {settings : Settings} (valid : settings.validate = .ok ())

include valid

theorem Settings.stem_injective : Function.Injective settings.stem := by
  have different : settings.handleStem ≠ settings.statementStem := by
    intro same
    unfold Settings.validate at valid
    split at valid
    · cases valid
    · split at valid
      · cases valid
      · cases valid
  rintro (_ | _) (_ | _) same
  · rfl
  · exact absurd (String.toList_injective same) different
  · exact absurd (String.toList_injective same).symm different
  · rfl

theorem Settings.isIdentChar_stem (stock : Stock) : ∀ c ∈ settings.stem stock, isIdentChar c = true := by
  cases stock with
  | handles => exact Settings.isIdentChar_handleStem valid
  | statements => exact Settings.isIdentChar_statementStem valid

end Settings

theorem counter_freshNames (settings : Settings) (content : Text) (stock : Stock) :
    (freshNames settings content).counter stock = .seeded (settings.stem stock) content := by
  cases stock <;> rfl

/-- The names that are fresh in a text stand behind the largest numbers there. -/
theorem exists_behind {settings : Settings} (valid : settings.validate = .ok ()) (content : Text) :
    ∃ last, (freshNames settings content).Behind settings.stem last ∧
      ∀ stock, Counter.Highest (settings.stem stock) content (last stock) := by
  choose last most seeded using fun stock =>
    Counter.exists_seeded (Settings.isIdentChar_stem valid stock) content
  exact ⟨last, fun stock => (counter_freshNames settings content stock).trans (seeded stock), most⟩

/-- A text that is a name carries the number of the name, and no other. -/
theorem Counter.highest_of_name {stem : Text} (chars : ∀ c ∈ stem, isIdentChar c = true) {n : Nat}
    (bound : n ≤ limit) : Highest stem (stem ++ Nat.toDigits 10 n) n := by
  have whole : identifiers (stem ++ Nat.toDigits 10 n) = [stem ++ Nat.toDigits 10 n] := by
    exact identifiers_of_all (List.append_ne_nil_of_right_ne_nil _ Nat.toDigits_ne_nil)
      (isIdentChar_of_mem_name chars isDigit_of_mem_toDigits)
  refine ⟨.inr ⟨bound, _, Nat.toDigits_ne_nil, isDigit_of_mem_toDigits, value_toDigits n, ?_⟩, ?_⟩
  · rw [whole]
    exact List.mem_singleton_self _
  · rintro m (rfl | ⟨_, digits, _, _, rfl, mem⟩)
    · exact Nat.zero_le _
    · rw [whole, List.mem_singleton] at mem
      rw [List.append_cancel_left mem, value_toDigits]

/-- **A stem that is extended meets the stem that extends it.** In a text that is a name of both, the one
goes on where the other begins. -/
theorem exists_collision {settings : Settings} (valid : settings.validate = .ok ()) {stock other : Stock}
    (longer : Extends (settings.stem stock) (settings.stem other)) :
    ∃ content name, Names.draw [stock, other] (freshNames settings content) = [name, name] := by
  obtain ⟨n, positive, bound, same⟩ := longer
  have different : other ≠ stock := by
    rintro rfl
    exact Nat.toDigits_ne_nil (List.self_eq_append_right.mp same)
  have both : ∀ d < 10, settings.stem other ++ Nat.toDigits 10 d =
      settings.stem stock ++ Nat.toDigits 10 (10 * n + d) := by
    intro d small
    rw [same, List.append_assoc, Nat.toDigits_append_toDigits (by decide) positive small]
  obtain ⟨last, behind, most⟩ := exists_behind valid (settings.stem other ++ Nat.toDigits 10 0)
  have atOther : last other = 0 :=
    (most other).unique (Counter.highest_of_name (Settings.isIdentChar_stem valid other) (by decide))
  have atStock : last stock = 10 * n := by
    have highest := most stock
    rw [both 0 (by decide)] at highest
    exact highest.unique (Counter.highest_of_name (Settings.isIdentChar_stem valid stock) (by omega))
  obtain ⟨middle, first, moved⟩ := behind.exists_next (show last stock < Counter.limit by omega)
  have unmoved : Function.update last stock (last stock + 1) other = 0 := by
    rw [Function.update_of_ne different, atOther]
  obtain ⟨later, second, _⟩ := moved.exists_next
    (show Function.update last stock (last stock + 1) other < Counter.limit by rw [unmoved]; decide)
  refine ⟨settings.stem other ++ Nat.toDigits 10 0, settings.stem stock ++ Nat.toDigits 10 (10 * n + 1),
    ?_⟩
  rw [unmoved, both (0 + 1) (by decide)] at second
  rw [atStock] at first
  simp only [Names.draw, first, second, Nat.zero_add]

/-- **All names are distinct, for every text and every row of requests, exactly if neither stem extends
the other.** -/
theorem names_distinct_iff {settings : Settings} (valid : settings.validate = .ok ()) :
    (∀ content requests, (Names.draw requests (freshNames settings content)).Nodup) ↔
      ∀ stock other, ¬ Extends (settings.stem stock) (settings.stem other) := by
  constructor
  · intro distinct stock other longer
    obtain ⟨content, name, twice⟩ := exists_collision valid longer
    have nodup := distinct content [stock, other]
    rw [twice] at nodup
    exact (List.nodup_cons.mp nodup).1 List.mem_cons_self
  · intro apart content requests
    obtain ⟨last, behind, _⟩ := exists_behind valid content
    exact behind.nodup_draw (Settings.stem_injective valid) apart requests

/-- Stems that differ, of which one extends the other. -/
def extendedStems : Settings :=
  { handleStem := "a", statementStem := "a1" }

/-- Settings are validated, and yet a handle and a statement are named alike. -/
theorem extendedStems_collide :
    extendedStems.validate = .ok () ∧
      Names.draw [.handles, .statements] (freshNames extendedStems "a10".toList) =
        ["a11".toList, "a11".toList] := by
  constructor <;> decide +kernel

/-- Stems of which one is the other with zeros behind it: no number begins with a zero. -/
def paddedStems : Settings :=
  { handleStem := "a", statementStem := "a01" }

theorem paddedStems_distinct :
    paddedStems.validate = .ok () ∧
      ∀ content requests, (Names.draw requests (freshNames paddedStems content)).Nodup := by
  have valid : paddedStems.validate = .ok () := by decide +kernel
  refine ⟨valid, (names_distinct_iff valid).mpr ?_⟩
  rintro (_ | _) (_ | _) <;> decide +kernel

end ScopedHandles
