import Valise.PartitionNames

/-!
Windows of partitions. A partition holds the records whose time stamps are in its period, and a
window shows the partitions that can hold a record of its time.
-/

namespace Valise

open Calendar CivilDates MachineInts Outcomes

namespace Partitions

def nextMonth (y : Int) (m : Nat) : Arith (Int × Nat) :=
  if m = 12 then do
    let ny ← i64 (y + 1)
    return (ny, 1)
  else do
    let nm ← u32 (m + 1)
    return (y, nm)

namespace Partitioned

variable {ρ : Type} (partitioned : Partitioned ρ)

/-- The seconds from the start of a period up to its end, as the name of a partition says them. -/
def periodOf (fullName : String) : Arith (Option (Int × Int)) :=
  match partitioned.suffixOf fullName with
  | none => .ok none
  | some suffix =>
      match partitioned.by_ with
      | .byDay =>
          match parseYmd suffix with
          | none => .ok none
          | some (y, m, d) => do
              let days ← daysFromCivil y m d
              let start ← i64 (days * 86400)
              let finish ← i64 (start + 86400)
              return some (start, finish)
      | .byMonth =>
          match parseYm suffix with
          | none => .ok none
          | some (y, m) => do
              let days ← daysFromCivil y m 1
              let start ← i64 (days * 86400)
              let (ny, nm) ← nextMonth y m
              let later ← daysFromCivil ny nm 1
              let finish ← i64 (later * 86400)
              return some (start, finish)
      | .custom _ => .ok none

def existing (collections : Collections) : Collections :=
  collections.filter fun item => (s!"{partitioned.base}:").toList.isPrefixOf item.1.toList

/-- The partitions whose names say a period that is wanted. -/
def choose (wanted : Int × Int → Bool) : Collections → Arith Collections
  | [] => return []
  | item :: rest => do
      let period ← partitioned.periodOf item.1
      let others ← choose wanted rest
      return if period.any wanted then item :: others else others

/-- Half-open periods that meet the closed interval. -/
def inWindow (collections : Collections) (first last : Int) : Arith (List String) := do
  let chosen ← partitioned.choose (fun period => first < period.2 ∧ period.1 ≤ last)
    (partitioned.existing collections)
  return chosen.map Prod.fst

def viewAsOf (collections : Collections) (window : Window) (now : Int64) : Arith (List String) :=
  match window with
  | .partitions suffixes => .ok ((suffixes.map fun suffix => s!"{partitioned.base}:{suffix}").filter
      fun name => name ∈ collections.map Prod.fst)
  | .lastDays days => do
      let span ← i64 (days.toNat * 86400)
      let first ← i64 (now.toInt - span)
      partitioned.inWindow collections first now.toInt
  | .range first last => partitioned.inWindow collections first.toInt last.toInt

/-- The first day of the period of a date, and the day after its last. -/
def spanOf (date : Date) : Int × Int :=
  match partitioned.by_ with
  | .byMonth => (monthStart date.year date.month,
      monthStart date.year date.month + monthLength date.year date.month)
  | _ => (date.number, date.number + 1)

def nameOf (date : Date) : String :=
  match partitioned.by_ with
  | .byMonth => s!"{partitioned.base}:{monthName date.year date.month}"
  | _ => s!"{partitioned.base}:{dayName date.year date.month date.day}"

variable {partitioned}

end Partitioned

/-- The date of a time stamp. -/
theorem dated (stamp : Int64) : ∃ date : Date,
    civilFromDays (stamp.toInt / 86400) = .ok (date.year, date.month, date.day) ∧
      date.number = stamp.toInt / 86400 ∧ -2 ^ 52 < date.year ∧ date.year < 2 ^ 52 := by
  have low := stamp.le_toInt
  have high := stamp.toInt_lt
  obtain ⟨era, yoe, k, mp, parts⟩ := exists_parts (stamp.toInt / 86400)
  refine ⟨parts.date, civilFromDays_ok parts (by omega) (by omega), parts.number, ?_⟩
  have day := parts.day
  have few := parts.few
  have inEra := parts.inEra
  unfold Parts.date yearOf
  dsimp only
  split <;> omega

/-- The year zero begins with its first second. -/
theorem year_neg_iff {date : Date} {stamp : Int} (day : date.number = stamp / 86400) :
    date.year < 0 ↔ stamp < -62167219200 := by
  obtain ⟨starts, ends⟩ := date.number_lt_year
  have zero : monthStart 0 1 = -719528 := by decide
  constructor
  · intro negative
    have before := newYear_le (Int.add_one_le_of_lt negative)
    omega
  · intro early
    by_contra later
    have after := newYear_le (Int.not_lt.mp later)
    omega

theorem nextMonth_ok {y : Int} {m : Nat} (near : -2 ^ 52 < y ∧ y < 2 ^ 52) (positive : 1 ≤ m)
    (valid : m ≤ 12) : ∃ ny nm, nextMonth y m = .ok (ny, nm) ∧ -2 ^ 53 ≤ ny ∧ ny ≤ 2 ^ 53 ∧
      nm ≤ 12 ∧ monthStart ny nm = monthStart y m + monthLength y m := by
  by_cases december : m = 12
  · subst december
    refine ⟨y + 1, 1, ?_, by omega, by omega, by decide, ?_⟩
    · rw [nextMonth, if_pos rfl, bind_i64 rfl (by omega) (by omega)]
      rfl
    · rw [monthStart_newYear]
      rfl
  · refine ⟨y, m + 1, ?_, by omega, by omega, by omega, monthStart_succ y positive (by omega)⟩
    rw [nextMonth, if_neg december]
    exact Outcome.bind_eq_ok.mpr ⟨m + 1, u32_ok.mpr ⟨by omega, rfl⟩, rfl⟩

theorem monthStart_eq (y : Int) (m : Nat) : dayNumber y m (1 : Nat) = monthStart y m := rfl

/-- An operation that overflows is the last one. -/
theorem bind_i64_if {α : Type} (value : Int) (rest : Int → Arith α) :
    (i64 value >>= rest) = if FitsI64 value then rest value else .err .overflow := by
  unfold i64 fitting
  split <;> rfl

namespace Partitioned

variable {ρ : Type} {partitioned : Partitioned ρ}

theorem named_toList (suffix : String) : (s!"{partitioned.base}:{suffix}").toList =
    partitioned.base.toList ++ ':' :: suffix.toList := by
  have colon : ":".toList = [':'] := by decide
  simp only [text_toString, String.toList_append, colon, List.append_assoc, List.cons_append,
    List.nil_append]

theorem suffixOf_named (suffix : String) :
    partitioned.suffixOf s!"{partitioned.base}:{suffix}" = some suffix.toList := by
  have base : (s!"{partitioned.base}:{suffix}").toList.dropPrefix? partitioned.base.toList =
      some (':' :: suffix.toList) := by
    rw [named_toList]
    exact List.dropPrefix?_append_of_beq _ BEq.rfl
  have colon : (':' :: suffix.toList).dropPrefix? [':'] = some suffix.toList :=
    @List.dropPrefix?_append_of_beq _ _ [':'] _ suffix.toList BEq.rfl
  rw [suffixOf, base]
  exact colon

/-- Days from the year zero on are far from the least number of seconds. -/
theorem first_day {y : Int} (positive : 0 ≤ y) : -719528 ≤ monthStart y 1 := by
  have first := newYear_le positive
  have zero : monthStart 0 1 = -719528 := by decide
  omega

/-- The name of a day says its seconds, when its year has no sign and the day ends in time. -/
theorem periodOf_day (byDay : partitioned.by_ = .byDay) {date : Date}
    (near : -2 ^ 52 < date.year ∧ date.year < 2 ^ 52) :
    partitioned.periodOf s!"{partitioned.base}:{dayName date.year date.month date.day}" =
      if date.year < 0 then .ok none
      else if 86400 * (date.number + 1) < 2 ^ 63 then
        .ok (some (86400 * date.number, 86400 * (date.number + 1)))
      else .err .overflow := by
  have months := date.month_le
  have most := (monthLength_bounds date.year date.month).2
  have days := date.day_le
  have fits : FitsI64 date.year := ⟨by omega, by omega⟩
  have number : daysFromCivil date.year date.month date.day = .ok date.number :=
    daysFromCivil_ok (by omega) (by omega) (by omega) (by omega)
  rw [periodOf, suffixOf_named, byDay]
  dsimp only
  rcases Int.lt_or_le date.year 0 with negative | positive
  · rw [if_pos negative, parseYmd_negative negative]
  · have start := date.number_lt_year.1
    have first := first_day positive
    rw [if_neg (Int.not_lt.mpr positive), parseYmd_dayName positive fits (by omega) (by omega)]
    dsimp only
    rw [number, Outcome.ok_bind, bind_i64_if, bind_i64_if]
    by_cases inTime : 86400 * (date.number + 1) < 2 ^ 63
    · have scaled : date.number * 86400 = 86400 * date.number := Int.mul_comm _ _
      have whole : date.number * 86400 + 86400 = 86400 * (date.number + 1) := by omega
      rw [if_pos inTime, if_pos ⟨by omega, by omega⟩, if_pos ⟨by omega, by omega⟩, whole, scaled]
      rfl
    · have late : ¬FitsI64 (date.number * 86400 + 86400) := by
        intro inside
        have high := inside.2
        omega
      rw [if_neg inTime, if_neg late, ite_self]

theorem periodOf_month (byMonth : partitioned.by_ = .byMonth) {date : Date}
    (near : -2 ^ 52 < date.year ∧ date.year < 2 ^ 52) :
    partitioned.periodOf s!"{partitioned.base}:{monthName date.year date.month}" =
      if date.year < 0 then .ok none
      else if 86400 * (monthStart date.year date.month + monthLength date.year date.month) <
          2 ^ 63 then
        .ok (some (86400 * monthStart date.year date.month,
          86400 * (monthStart date.year date.month + monthLength date.year date.month)))
      else .err .overflow := by
  have months := date.month_le
  have fits : FitsI64 date.year := ⟨by omega, by omega⟩
  obtain ⟨ny, nm, next, low, high, valid, later⟩ := nextMonth_ok near date.month_pos date.month_le
  have begins : daysFromCivil date.year date.month 1 = .ok (monthStart date.year date.month) :=
    daysFromCivil_ok (by omega) (by omega) (by omega) (by omega)
  have ends : daysFromCivil ny nm 1 =
      .ok (monthStart date.year date.month + monthLength date.year date.month) := by
    rw [daysFromCivil_ok low high (by omega) (by omega), monthStart_eq, later]
  rw [periodOf, suffixOf_named, byMonth]
  dsimp only
  rcases Int.lt_or_le date.year 0 with negative | positive
  · rw [if_pos negative, parseYm_negative negative]
  · have start := monthStart_le date.year (le_refl 1) date.month_pos date.month_le
    have first := first_day positive
    have least := (monthLength_bounds date.year date.month).1
    rw [if_neg (Int.not_lt.mpr positive), parseYm_monthName positive fits (by omega)]
    dsimp only
    rw [begins, Outcome.ok_bind, bind_i64_if, next, Outcome.ok_bind, ends, Outcome.ok_bind,
      bind_i64_if, Int.mul_comm _ 86400, Int.mul_comm _ 86400]
    generalize monthStart date.year date.month = month at *
    by_cases inTime : 86400 * (month + monthLength date.year date.month) < 2 ^ 63
    · rw [if_pos inTime, if_pos ⟨by omega, by omega⟩, if_pos ⟨by omega, by omega⟩]
      rfl
    · have late : ¬FitsI64 (86400 * (month + monthLength date.year date.month)) :=
        fun inside => inTime inside.2
      rw [if_neg inTime, if_neg late, ite_self]

theorem periodOf_nameOf (timed : partitioned.by_.isTime = true) {date : Date}
    (near : -2 ^ 52 < date.year ∧ date.year < 2 ^ 52) :
    partitioned.periodOf (partitioned.nameOf date) =
      if date.year < 0 then .ok none
      else if 86400 * (partitioned.spanOf date).2 < 2 ^ 63 then
        .ok (some (86400 * (partitioned.spanOf date).1, 86400 * (partitioned.spanOf date).2))
      else .err .overflow := by
  cases kind : partitioned.by_ with
  | custom router =>
      rw [kind] at timed
      cases timed
  | byDay =>
      rw [nameOf, spanOf, kind]
      exact periodOf_day kind near
  | byMonth =>
      rw [nameOf, spanOf, kind]
      exact periodOf_month kind near

/-! ### Which records a partition holds -/

theorem nameOf_eq_iff (timed : partitioned.by_.isTime = true) {date other : Date}
    (near : -2 ^ 52 < date.year ∧ date.year < 2 ^ 52)
    (near' : -2 ^ 52 < other.year ∧ other.year < 2 ^ 52) :
    partitioned.nameOf other = partitioned.nameOf date ↔
      (partitioned.spanOf date).1 ≤ other.number ∧ other.number < (partitioned.spanOf date).2 := by
  have fits : FitsI64 date.year := ⟨by omega, by omega⟩
  have fits' : FitsI64 other.year := ⟨by omega, by omega⟩
  have months := date.month_le
  have months' := other.month_le
  have days := date.day_le
  have days' := other.day_le
  have most := (monthLength_bounds date.year date.month).2
  have most' := (monthLength_bounds other.year other.month).2
  have suffixes : ∀ {first second : String},
      s!"{partitioned.base}:{first}" = s!"{partitioned.base}:{second}" →
        first.toList = second.toList := by
    intro first second same
    have texts := congrArg String.toList same
    rw [named_toList, named_toList] at texts
    exact (List.cons.inj (List.append_cancel_left texts)).2
  cases kind : partitioned.by_ with
  | custom router =>
      rw [kind] at timed
      cases timed
  | byDay =>
      rw [nameOf, nameOf, spanOf, kind]
      dsimp only
      constructor
      · intro same
        obtain ⟨year, month, day⟩ := dayName_inj fits' fits (by omega) (by omega) (by omega)
          (by omega) (suffixes same)
        have equal : other.number = date.number := by
          rw [Date.number, Date.number, year, month, day]
        omega
      · rintro ⟨low, high⟩
        have equal : other = date := Date.number_injective (by omega)
        rw [equal]
  | byMonth =>
      rw [nameOf, nameOf, spanOf, kind]
      dsimp only
      constructor
      · intro same
        obtain ⟨year, month⟩ := monthName_inj fits' fits (by omega) (by omega) (suffixes same)
        have inside := other.number_bounds
        rw [year, month] at inside
        exact inside
      · rintro ⟨low, high⟩
        obtain ⟨year, month⟩ := Date.same_month low high
        rw [year, month]

theorem route_nameOf (timed : partitioned.by_.isTime = true) {createdAt : Option Int64}
    {now : Int64} {date : Date} (civil : civilFromDays ((createdAt.getD now).toInt / 86400) =
      .ok (date.year, date.month, date.day)) (record : ρ) :
    partitioned.route record createdAt now = .ok (partitioned.nameOf date) := by
  cases kind : partitioned.by_ with
  | custom router =>
      rw [kind] at timed
      cases timed
  | byDay =>
      rw [route, nameOf, kind]
      dsimp only
      rw [civil]
      rfl
  | byMonth =>
      rw [route, nameOf, kind]
      dsimp only
      rw [civil]
      rfl

/-- The records of a partition by time are those of the seconds of its period, and its name says
the period, unless the year has a sign or the period does not end in time. -/
theorem partition_period (timed : partitioned.by_.isTime = true) (record : ρ)
    (createdAt : Option Int64) (now : Int64) : ∃ name first last,
      partitioned.route record createdAt now = .ok name ∧
      (∀ (other : ρ) (written : Option Int64) (clock : Int64),
        partitioned.route other written clock = .ok name ↔
          first ≤ (written.getD clock).toInt ∧ (written.getD clock).toInt < last) ∧
      partitioned.periodOf name =
        if (createdAt.getD now).toInt < -62167219200 then .ok none
        else if last < 2 ^ 63 then .ok (some (first, last))
        else .err .overflow := by
  obtain ⟨date, civil, number, near⟩ := dated (createdAt.getD now)
  refine ⟨partitioned.nameOf date, 86400 * (partitioned.spanOf date).1,
    86400 * (partitioned.spanOf date).2, route_nameOf timed civil record, ?_, ?_⟩
  · intro other written clock
    obtain ⟨day, civil', number', near'⟩ := dated (written.getD clock)
    rw [route_nameOf timed civil' other, Outcome.ok.injEq, nameOf_eq_iff timed near near', number']
    omega
  · rw [periodOf_nameOf timed near]
    exact if_congr (year_neg_iff number) rfl rfl

theorem memory_period : ∃ name first last,
    (⟨"memory", .byDay⟩ : Partitioned Unit).route () (some 1779700000) 0 = .ok name ∧
    (∀ (other : Unit) (written : Option Int64) (clock : Int64),
      (⟨"memory", .byDay⟩ : Partitioned Unit).route other written clock = .ok name ↔
        first ≤ (written.getD clock).toInt ∧ (written.getD clock).toInt < last) ∧
    (⟨"memory", .byDay⟩ : Partitioned Unit).periodOf name =
      if ((some 1779700000 : Option Int64).getD 0).toInt < -62167219200 then .ok none
      else if last < 2 ^ 63 then .ok (some (first, last))
      else .err .overflow :=
  partition_period rfl () (some 1779700000) 0

/-- A period that a name says is that of the records routed there; none is before the year zero. -/
theorem said_period (timed : partitioned.by_.isTime = true) {record : ρ}
    {createdAt : Option Int64} {now : Int64} {name : String} {start finish : Int}
    (routed : partitioned.route record createdAt now = .ok name)
    (said : partitioned.periodOf name = .ok (some (start, finish))) :
    (∀ (other : ρ) (written : Option Int64) (clock : Int64),
      partitioned.route other written clock = .ok name ↔
        start ≤ (written.getD clock).toInt ∧ (written.getD clock).toInt < finish) ∧
      -62167219200 ≤ start ∧ start < finish ∧ finish < 2 ^ 63 := by
  obtain ⟨_, first, last, routed', members, tells⟩ := partition_period timed record createdAt now
  obtain rfl := Outcome.ok.inj (routed.symm.trans routed')
  obtain ⟨low, high⟩ := (members record createdAt now).mp routed
  rw [said] at tells
  split at tells
  · cases tells
  · rename_i era
    split at tells
    · rename_i inTime
      obtain ⟨rfl, rfl⟩ := Prod.mk.inj (Option.some.inj (Outcome.ok.inj tells))
      refine ⟨members, ?_, by omega, inTime⟩
      by_contra early
      -- The last second before the year zero would be in the period too, and say none.
      have second : (Int64.ofInt (-62167219201)).toInt = -62167219201 := by decide
      have there := (members record (some (Int64.ofInt (-62167219201))) now).mpr (by
        rw [Option.getD_some, second]
        omega)
      obtain ⟨_, _, _, routed'', -, tells⟩ :=
        partition_period timed record (some (Int64.ofInt (-62167219201))) now
      obtain rfl := Outcome.ok.inj (there.symm.trans routed'')
      rw [said, Option.getD_some, second, if_pos (by decide)] at tells
      cases tells
    · cases tells

/-! ### Partitions that are chosen by their periods -/

theorem mem_choose {wanted : Int × Int → Bool} {items chosen : Collections}
    (found : partitioned.choose wanted items = .ok chosen) {item : String × CollectionId} :
    item ∈ chosen ↔ item ∈ items ∧
      ∃ period, partitioned.periodOf item.1 = .ok (some period) ∧ wanted period = true := by
  induction items generalizing chosen with
  | nil =>
      obtain rfl := Outcome.ok.inj found
      simp
  | cons head rest ih =>
      obtain ⟨period, read, found⟩ := Outcome.bind_eq_ok.mp found
      obtain ⟨others, later, found⟩ := Outcome.bind_eq_ok.mp found
      obtain rfl := Outcome.ok.inj found
      have here : period.any wanted = true ↔
          ∃ period, partitioned.periodOf head.1 = .ok (some period) ∧ wanted period = true := by
        rw [read]
        cases period with
        | none => simp
        | some period => simp
      by_cases taken : period.any wanted = true
      · rw [if_pos taken, List.mem_cons, List.mem_cons, ih later]
        constructor
        · rintro (rfl | ⟨listed, holds⟩)
          · exact ⟨.inl rfl, here.mp taken⟩
          · exact ⟨.inr listed, holds⟩
        · rintro ⟨rfl | listed, holds⟩
          · exact .inl rfl
          · exact .inr ⟨listed, holds⟩
      · rw [if_neg taken, List.mem_cons, ih later]
        constructor
        · rintro ⟨listed, holds⟩
          exact ⟨.inr listed, holds⟩
        · rintro ⟨rfl | listed, holds⟩
          · exact absurd (here.mpr holds) taken
          · exact ⟨listed, holds⟩

/-- A choice fails only at a period that does not end in time. -/
theorem choose_ok_iff (wanted : Int × Int → Bool) (items : Collections) :
    (∃ chosen, partitioned.choose wanted items = .ok chosen) ↔
      ∀ item ∈ items, ∃ period, partitioned.periodOf item.1 = .ok period := by
  induction items with
  | nil => simp [choose]
  | cons head rest ih =>
      rw [List.forall_mem_cons, ← ih, choose]
      constructor
      · rintro ⟨chosen, found⟩
        obtain ⟨period, read, found⟩ := Outcome.bind_eq_ok.mp found
        obtain ⟨others, later, -⟩ := Outcome.bind_eq_ok.mp found
        exact ⟨⟨period, read⟩, others, later⟩
      · rintro ⟨⟨period, read⟩, others, later⟩
        rw [read, Outcome.ok_bind, later]
        exact ⟨_, rfl⟩

theorem mem_existing {collections : Collections} {item : String × CollectionId} :
    item ∈ partitioned.existing collections ↔ item ∈ collections ∧
      (s!"{partitioned.base}:").toList <+: item.1.toList := by
  rw [existing, List.mem_filter, List.isPrefixOf_iff_prefix]

/-- Every partition has the name of the base before its own. -/
theorem routed_startsWith {record : ρ} {createdAt : Option Int64} {now : Int64} {name : String}
    (routed : partitioned.route record createdAt now = .ok name) :
    (s!"{partitioned.base}:").toList <+: name.toList := by
  have named : ∀ suffix : String, (s!"{partitioned.base}:").toList <+:
      (s!"{partitioned.base}:{suffix}").toList := by
    intro suffix
    refine ⟨suffix.toList, ?_⟩
    simp only [text_toString, String.toList_append]
  cases kind : partitioned.by_ with
  | byDay =>
      rw [route, kind] at routed
      obtain ⟨date, -, same⟩ := Outcome.bind_eq_ok.mp routed
      rw [← Outcome.ok.inj same]
      exact named _
  | byMonth =>
      rw [route, kind] at routed
      obtain ⟨date, -, same⟩ := Outcome.bind_eq_ok.mp routed
      rw [← Outcome.ok.inj same]
      exact named _
  | custom router =>
      rw [route, kind] at routed
      rw [← Outcome.ok.inj routed]
      exact named _

end Partitioned

/-! ### Windows -/

/-- The seconds of a window, from the first to the last, when it is a window of time. -/
def Window.interval (window : Window) (now : Int64) : Option (Int × Int) :=
  match window with
  | .lastDays days => some (now.toInt - days.toNat * 86400, now.toInt)
  | .range first last => some (first.toInt, last.toInt)
  | .partitions _ => none

namespace Partitioned

variable {ρ : Type} {partitioned : Partitioned ρ}

theorem viewAsOf_interval {collections : Collections} {window : Window} {now : Int64}
    {first last : Int} {names : List String} (seconds : window.interval now = some (first, last))
    (viewed : partitioned.viewAsOf collections window now = .ok names) :
    partitioned.inWindow collections first last = .ok names := by
  cases window with
  | lastDays days =>
      obtain ⟨rfl, rfl⟩ := Prod.mk.inj (Option.some.inj seconds)
      obtain ⟨span, scaled, viewed⟩ := Outcome.bind_eq_ok.mp viewed
      obtain ⟨start, shifted, viewed⟩ := Outcome.bind_eq_ok.mp viewed
      rw [← (i64_ok.mp shifted).2, ← (i64_ok.mp scaled).2] at viewed
      exact viewed
  | range from_ to_ =>
      obtain ⟨rfl, rfl⟩ := Prod.mk.inj (Option.some.inj seconds)
      exact viewed
  | partitions suffixes => cases seconds

/-- A window of time shows the partitions that can hold a record of its seconds; partitions of the
years before the year zero it never shows. -/
theorem window_shows (timed : partitioned.by_.isTime = true) {collections : Collections}
    {window : Window} {now : Int64} {first last : Int} {names : List String}
    (seconds : window.interval now = some (first, last)) (ordered : first ≤ last)
    (viewed : partitioned.viewAsOf collections window now = .ok names) (record : ρ)
    (createdAt : Option Int64) (clock : Int64) {name : String}
    (routed : partitioned.route record createdAt clock = .ok name) :
    name ∈ names ↔ name ∈ collections.map Prod.fst ∧
      ∃ stamp : Int64, -62167219200 ≤ stamp.toInt ∧ first ≤ stamp.toInt ∧ stamp.toInt ≤ last ∧
        partitioned.route record (some stamp) clock = .ok name := by
  obtain ⟨chosen, found, same⟩ := Outcome.bind_eq_ok.mp (viewAsOf_interval seconds viewed)
  obtain rfl := Outcome.ok.inj same
  have shown : name ∈ chosen.map Prod.fst ↔ name ∈ collections.map Prod.fst ∧
      ∃ period, partitioned.periodOf name = .ok (some period) ∧
        (first < period.2 ∧ period.1 ≤ last) := by
    simp only [List.mem_map, mem_choose found, mem_existing, decide_eq_true_eq]
    constructor
    · rintro ⟨item, ⟨⟨listed, -⟩, said⟩, rfl⟩
      exact ⟨⟨item, listed, rfl⟩, said⟩
    · rintro ⟨⟨item, listed, rfl⟩, said⟩
      exact ⟨item, ⟨⟨listed, routed_startsWith routed⟩, said⟩, rfl⟩
  rw [shown]
  refine and_congr_right fun listed => ?_
  constructor
  · rintro ⟨⟨start, finish⟩, said, begins, ends⟩
    obtain ⟨members, era, positive, inTime⟩ := said_period timed routed said
    dsimp only at begins ends
    have stamp : (Int64.ofInt (max first start)).toInt = max first start :=
      Int64.toInt_ofInt_of_le (by omega) (by omega)
    refine ⟨Int64.ofInt (max first start), by omega, by omega, by omega, ?_⟩
    rw [members, Option.getD_some, stamp]
    omega
  · rintro ⟨stamp, era, begins, ends, there⟩
    obtain ⟨item, held, rfl⟩ := List.mem_map.mp listed
    obtain ⟨period, read⟩ := (choose_ok_iff _ _).mp ⟨chosen, found⟩ item
      (mem_existing.mpr ⟨held, routed_startsWith routed⟩)
    obtain ⟨_, start, finish, routed', members, tells⟩ :=
      partition_period timed record (some stamp) clock
    obtain rfl := Outcome.ok.inj (there.symm.trans routed')
    have inside := (members record (some stamp) clock).mp there
    rw [Option.getD_some] at inside tells
    rw [if_neg (Int.not_lt.mpr era), read] at tells
    split at tells
    · obtain rfl := Outcome.ok.inj tells
      exact ⟨(start, finish), read, by dsimp only; omega, by dsimp only; omega⟩
    · cases tells

theorem memory_shows : "memory:2026-05-25" ∈ ["memory:2026-05-25"] ↔
    "memory:2026-05-25" ∈ ([("memory:2026-05-25", 3)] : Collections).map Prod.fst ∧
      ∃ stamp : Int64, -62167219200 ≤ stamp.toInt ∧ 1779700000 ≤ stamp.toInt ∧
        stamp.toInt ≤ 1779800000 ∧
        (⟨"memory", .byDay⟩ : Partitioned Unit).route () (some stamp) 0 =
          .ok "memory:2026-05-25" := by
  have viewed : (⟨"memory", .byDay⟩ : Partitioned Unit).viewAsOf [("memory:2026-05-25", 3)]
      (.range 1779700000 1779800000) 0 = .ok ["memory:2026-05-25"] := by decide +kernel
  have routed : (⟨"memory", .byDay⟩ : Partitioned Unit).route () (some 1779700000) 0 =
      .ok "memory:2026-05-25" := by decide +kernel
  exact window_shows rfl rfl (by decide) viewed () (some 1779700000) 0 routed

end Partitioned

end Partitions

end Valise
