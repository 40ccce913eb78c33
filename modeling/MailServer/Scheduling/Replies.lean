import MailServer.Scheduling.Effects

/-!
# Whom a reply speaks for

A reply edits the participation of its sender in the stored instances it names, hands the
participation over to the attendees that the sender delegates to, and adds the instances that the
organizer has not.

Principal results: `replyAttendee_participations`, `reply_speaks_for_sender_iff`,
`reply_for_another`.
-/

namespace MailServer.Scheduling

open List

/-! ## Participation -/

/-- What an attendee entry states about the participation of an address: its status and its
delegations. -/
structure Participation where
  email : String
  partStat : Option ICalendarParticipationStatus
  delegatedFrom : List String
  delegatedTo : List String
deriving DecidableEq

variable {entry : ICalendarEntry} {entries : List ICalendarEntry} {part : Participation}

def Attendee.participation (attendee : Attendee) : Participation where
  email := attendee.email.email
  partStat := attendee.partStat
  delegatedFrom := attendee.delegatedFrom.map Email.email
  delegatedTo := attendee.delegatedTo.map Email.email

theorem Attendee.participation_eq_of_key {attendee other : Attendee}
    (h : attendee.key = other.key) : attendee.participation = other.participation := by
  simp only [Attendee.key, AttendeeKey.mk.injEq] at h
  simp [Attendee.participation, h]

/-- The parameters that state a participation. -/
def participationNames : List ICalendarParameterName := [.partstat, .delegatedFrom, .delegatedTo]

section Participations

variable (cal : Calcard) (emails : List String)

def readParticipation (entry : ICalendarEntry) : Option Participation :=
  (readAttendee cal emails (entry, 0)).map Attendee.participation

/-- The participations that the entries of a component state. -/
def participations (entries : List ICalendarEntry) : List Participation :=
  entries.filterMap (readParticipation cal emails)

/-- The participation of one address in an entry. -/
def participationOf (email : String) (entry : ICalendarEntry) : Option Participation :=
  (readParticipation cal emails entry).filter (·.email = email)

/-- The participations of one address in a component, one for each of its entries. -/
def participationsOf (entries : List ICalendarEntry) (email : String) : List Participation :=
  entries.filterMap (participationOf cal emails email)

variable {cal emails}

theorem readParam_participation {part other : Attendee}
    (h : part.participation = other.participation) (param : ICalendarParameter) :
    (Attendee.readParam cal emails part param).participation =
      (Attendee.readParam cal emails other param).participation := by
  simp only [Attendee.participation, Participation.mk.injEq] at h
  obtain ⟨hemail, hstat, hfrom, hto⟩ := h
  rw [Attendee.readParam, Attendee.readParam]
  split <;> simp [Attendee.participation, hemail, hstat, hfrom, hto]

theorem readParam_of_not_mem {param} (h : param.name ∉ participationNames)
    (part : Attendee) :
    (Attendee.readParam cal emails part param).participation = part.participation := by
  rw [Attendee.readParam]
  split <;> first | rfl | (rename_i hname _; exact absurd (by simp [hname, participationNames]) h)

theorem foldl_readParam_participation {params params' : List ICalendarParameter}
    {part other : Attendee} (h : part.participation = other.participation)
    (hparams : (params.filter (participationNames.contains ·.name)) =
      params'.filter (participationNames.contains ·.name)) :
    (params.foldl (Attendee.readParam cal emails) part).participation =
      (params'.foldl (Attendee.readParam cal emails) other).participation := by
  have hsame : ∀ (params : List ICalendarParameter) part other,
      part.participation = other.participation →
      (params.foldl (Attendee.readParam cal emails) part).participation =
        ((params.filter (participationNames.contains ·.name)).foldl
          (Attendee.readParam cal emails) other).participation := by
    intro params
    induction params with
    | nil => exact fun _ _ h => h
    | cons param params ih =>
      intro part other h
      by_cases hname : param.name ∈ participationNames
      · rw [filter_cons_of_pos (by simpa using hname)]
        exact ih _ _ (readParam_participation h param)
      · rw [filter_cons_of_neg (by simpa using hname), foldl_cons]
        exact ih _ _ ((readParam_of_not_mem hname part).trans h)
  rw [hsame params part other h, hparams, ← hsame params' other other rfl]

theorem readAttendee_participation (entry : ICalendarEntry) (position : ℕ) :
    (readAttendee cal emails (entry, position)).map Attendee.participation =
      readParticipation cal emails entry := by
  rw [readParticipation, readAttendee, readAttendee]
  split
  · rw [Option.map_map, Option.map_map]
    refine Option.map_congr fun email _ => ?_
    exact foldl_readParam_participation rfl rfl
  · rfl

theorem readParticipation_congr {entry other : ICalendarEntry} (hname : entry.name = other.name)
    (hemail : (entryEmail cal emails entry).map Email.email =
      (entryEmail cal emails other).map Email.email)
    (hparams : (entry.params.filter (participationNames.contains ·.name)) =
      other.params.filter (participationNames.contains ·.name)) :
    readParticipation cal emails entry = readParticipation cal emails other := by
  rw [readParticipation, readParticipation, readAttendee, readAttendee, hname]
  split
  swap
  · rfl
  cases hentry : entryEmail cal emails entry with
  | none =>
    rw [hentry] at hemail
    rw [Option.map_eq_none_iff.1 hemail.symm]
    rfl
  | some email =>
    rw [hentry] at hemail
    obtain ⟨email', hother, hsame⟩ := Option.map_eq_some_iff.1 hemail.symm
    rw [hother]
    refine congrArg some (foldl_readParam_participation ?_ hparams)
    simp [Attendee.participation, hsame]

theorem readParticipation_email (h : readParticipation cal emails entry = some part) :
    entry.name = .attendee ∧
      (entryEmail cal emails entry).map Email.email = some part.email := by
  obtain ⟨attendee, hattendee, rfl⟩ := Option.map_eq_some_iff.1 h
  obtain ⟨hname, -, hemail⟩ := readAttendee_eq_some hattendee
  exact ⟨hname, by rw [hemail]; rfl⟩

theorem readParticipation_of_ne (h : entry.name ≠ .attendee) :
    readParticipation cal emails entry = none := by
  simp [readParticipation, readAttendee, h]

theorem participationsOf_eq_nil (h : ∀ entry ∈ entries, entry.name ≠ .attendee) (email : String) :
    participationsOf cal emails entries email = [] := by
  refine filterMap_eq_nil_iff.2 fun entry hentry => ?_
  rw [participationOf, readParticipation_of_ne (h entry hentry)]
  rfl

theorem participationsOf_append (xs ys : List ICalendarEntry) (email : String) :
    participationsOf cal emails (xs ++ ys) email =
      participationsOf cal emails xs email ++ participationsOf cal emails ys email :=
  filterMap_append ..

theorem participations_filter {p : ICalendarProperty → Bool} (h : p .attendee)
    (entries : List ICalendarEntry) :
    participations cal emails (entries.filter fun entry => p entry.name) =
      participations cal emails entries := by
  rw [participations, filterMap_filter]
  refine filterMap_congr fun entry _ => ?_
  by_cases hname : entry.name = .attendee
  · simp [hname, h]
  · simp [readParticipation_of_ne hname]

theorem participationsOf_eq_filter (entries : List ICalendarEntry) (email : String) :
    participationsOf cal emails entries email =
      (participations cal emails entries).filter (·.email = email) := by
  rw [participations, filter_filterMap]
  rfl

theorem StoredAt.participation_entry {ical : ICalendar} {id : InstanceId}
    {snapshot : ItipSnapshot} {comp : ICalendarComponent × ℕ}
    (h : StoredAt cal emails ical id snapshot comp)
    (hsmall : comp.1.entries.length ≤ 2 ^ 16) {attendee : Attendee}
    (hattendee : attendee ∈ snapshot.attendees) :
    ∃ entry, comp.1.entries[attendee.entryId.toNat]? = some entry ∧
      readParticipation cal emails entry = some attendee.participation := by
  obtain ⟨entry, position, hentry, hread⟩ := h.attendee_entry hsmall hattendee
  refine ⟨entry, hentry, ?_⟩
  rw [← readAttendee_participation entry position, hread]
  rfl

end Participations

/-! ## Edits entry by entry -/

/-- What an action on the parameters of an entry does to it. -/
def MergeAction.editEntry (position index : ℕ) :
    MergeAction → ICalendarEntry → ICalendarEntry
  | .addParameters id entryId parameters, entry =>
    if id.toNat = position ∧ entryId.toNat = index then
      { entry with params := entry.params ++ parameters }
    else entry
  | .removeParameters id entryId names, entry =>
    if id.toNat = position ∧ entryId.toNat = index then
      { entry with params := entry.params.filter (!names.contains ·.name) }
    else entry
  | _, entry => entry

/-- The entry at an index of the component at a position, after some actions on its parameters. -/
def entryAfter (actions : List MergeAction) (position index : ℕ) (entry : ICalendarEntry) :
    ICalendarEntry :=
  actions.foldl (fun entry action => action.editEntry position index entry) entry

/-- The entries that some actions append to the component at a position. -/
def addedEntries (actions : List MergeAction) (position : ℕ) : List ICalendarEntry :=
  actions.flatMap fun action =>
    match action with
    | .addEntries id entries => if id.toNat = position then entries else []
    | _ => []

/-- The action changes parameters of the first entries or appends entries. -/
def MergeAction.EditsFirst (count : ℕ) : MergeAction → Prop
  | .addParameters _ entryId _ | .removeParameters _ entryId _ => entryId.toNat < count
  | .removeEntries _ _ => False
  | .addEntries _ _ | .addComponent _ | .removeComponent _ => True

theorem entryAfter_append (xs ys : List MergeAction) (position index : ℕ) (entry : ICalendarEntry) :
    entryAfter (xs ++ ys) position index entry =
      entryAfter ys position index (entryAfter xs position index entry) := by
  rw [entryAfter, foldl_append]
  rfl

theorem modify_append_eq_mapIdx {α : Type} {i : ℕ} {xs : List α} (hi : i < xs.length)
    (f : α → α) (ys : List α) :
    (xs ++ ys).modify i f = (xs.mapIdx fun index x => if i = index then f x else x) ++ ys := by
  refine ext_getElem? fun index => ?_
  rw [getElem?_modify]
  rcases lt_or_ge index xs.length with hlt | hge
  · rw [getElem?_append_left hlt, getElem?_append_left (by simpa using hlt),
      getElem?_mapIdx]
    by_cases h : i = index <;> cases xs[index]? <;> simp [h]
  · have hne : i ≠ index := by omega
    rw [getElem?_append_right hge, getElem?_append_right (by simpa using hge),
      length_mapIdx]
    cases ys[index - xs.length]? <;> simp [hne]

theorem edit_eq_mapIdx {action : MergeAction} {position : ℕ}
    (h : action.EditsFirst entries.length) (extras : List ICalendarEntry) :
    (if action.target = some position then action.edit (entries ++ extras)
      else entries ++ extras) =
      (entries.mapIdx fun index entry => action.editEntry position index entry) ++
        (extras ++ addedEntries [action] position) := by
  have hsame (hedit : ∀ index entry, action.editEntry position index entry = entry) :
      (entries.mapIdx fun index entry => action.editEntry position index entry) = entries := by
    refine ext_getElem? fun index => ?_
    rw [getElem?_mapIdx]
    cases entries[index]? <;> simp [hedit]
  cases action with
  | addEntries id added =>
    rw [hsame fun _ _ => rfl]
    by_cases hid : id.toNat = position <;>
      simp [MergeAction.target, MergeAction.edit, addedEntries, hid]
  | removeEntries id names => exact h.elim
  | addParameters id entryId parameters | removeParameters id entryId names =>
    by_cases hid : id.toNat = position
    · simp only [MergeAction.target, MergeAction.edit]
      rw [modify_append_eq_mapIdx h]
      simp [MergeAction.editEntry, addedEntries, hid]
    · rw [hsame fun _ _ => by simp [MergeAction.editEntry, hid]]
      simp [MergeAction.target, addedEntries, hid]
  | addComponent | removeComponent =>
    rw [hsame fun _ _ => rfl]
    simp [MergeAction.target, addedEntries]

/-- **Changes of parameters and new entries**, entry by entry. -/
theorem entriesAfter_eq_mapIdx {actions} {position : ℕ}
    {entries} (h : ∀ action ∈ actions, action.EditsFirst entries.length)
    (extras : List ICalendarEntry) :
    entriesAfter actions position (entries ++ extras) =
      (entries.mapIdx fun index entry => entryAfter actions position index entry) ++
        (extras ++ addedEntries actions position) := by
  induction actions generalizing entries extras with
  | nil =>
    have hsame : (entries.mapIdx fun index entry => entryAfter [] position index entry) =
        entries := by
      refine ext_getElem? fun index => ?_
      rw [getElem?_mapIdx]
      cases entries[index]? <;> simp [entryAfter]
    simp [entriesAfter, addedEntries, hsame]
  | cons action actions ih =>
    rw [forall_mem_cons] at h
    have hcons : entriesAfter (action :: actions) position (entries ++ extras) =
        entriesAfter actions position (if action.target = some position
          then action.edit (entries ++ extras) else entries ++ extras) := rfl
    rw [hcons, edit_eq_mapIdx h.1, ih (by simpa using h.2), mapIdx_mapIdx]
    simp [addedEntries, entryAfter, Function.comp_def]

theorem filterMap_mapIdx_eq_iff {α β : Type} {g : α → Option β} :
    ∀ {xs : List α} {f : ℕ → α → α},
      (∀ i x, xs[i]? = some x → (g (f i x)).isSome = (g x).isSome) →
      ((xs.mapIdx f).filterMap g = xs.filterMap g ↔ ∀ i x, xs[i]? = some x → g (f i x) = g x)
  | [], f, _ => by simp
  | x :: xs, f, hsome => by
    have ih : (xs.mapIdx fun i => f (i + 1)).filterMap g = xs.filterMap g ↔ _ :=
      filterMap_mapIdx_eq_iff fun i y hy => hsome (i + 1) y (by simpa using hy)
    have hforall : (∀ i y, (x :: xs)[i]? = some y → g (f i y) = g y) ↔
        g (f 0 x) = g x ∧ ∀ i y, xs[i]? = some y → g (f (i + 1) y) = g y := by
      constructor
      · exact fun h => ⟨h 0 x rfl, fun i y hy => h (i + 1) y (by simpa using hy)⟩
      · rintro ⟨hx, hxs⟩ i y hy
        cases i with
        | zero =>
          obtain rfl : x = y := by simpa using hy
          exact hx
        | succ i => exact hxs i y (by simpa using hy)
    have hhead := hsome 0 x rfl
    rw [hforall, ← ih, mapIdx_cons, filterMap_cons, filterMap_cons]
    cases hx : g x with
    | none =>
      rw [hx, Option.isSome_none, Option.isSome_eq_false_iff, Option.isNone_iff_eq_none] at hhead
      simp [hhead]
    | some y =>
      rw [hx] at hhead
      obtain ⟨z, hz⟩ := Option.isSome_iff_exists.1 hhead
      simp [hz]

/-! ## Delegates -/

/-- An attendee entry with the delegation parameters of another. -/
def takeOver (entry other : ICalendarEntry) : ICalendarEntry :=
  { entry with params := entry.params.filter (!delegationParameters.contains ·.name) ++
      other.params.filter (delegationParameters.contains ·.name) }

theorem takeOver_takeOver (entry other : ICalendarEntry) :
    takeOver (takeOver entry other) other = takeOver entry other := by
  simp [takeOver, filter_filter]

theorem readParticipation_takeOver {cal : Calcard} {emails : List String}
    {entry other} {part part'}
    (hentry : readParticipation cal emails entry = some part)
    (hother : readParticipation cal emails other = some part')
    (hemail : part.email = part'.email) :
    readParticipation cal emails (takeOver entry other) = some part' := by
  obtain ⟨hname, hpart⟩ := readParticipation_email hentry
  obtain ⟨hname', hpart'⟩ := readParticipation_email hother
  have hsame : (takeOver entry other).name = other.name := hname.trans hname'.symm
  refine (readParticipation_congr hsame ?_ ?_).trans hother
  · rw [hpart', ← hemail, ← hpart]
    rfl
  · have hnames (name : ICalendarParameterName) (h : participationNames.contains name) :
        delegationParameters.contains name := by
      have hsubset : ∀ name ∈ participationNames, name ∈ delegationParameters := by decide
      exact contains_iff_mem.2 (hsubset name (contains_iff_mem.1 h))
    simp only [takeOver, filter_append, filter_filter]
    have hnone : (entry.params.filter fun param => participationNames.contains param.name &&
        !delegationParameters.contains param.name) = [] := by
      refine filter_eq_nil_iff.2 fun param _ h => ?_
      rw [Bool.and_eq_true, Bool.not_eq_true'] at h
      exact Bool.false_ne_true (h.2.symm.trans (hnames _ h.1))
    rw [hnone]
    refine filter_congr fun param _ => ?_
    cases h : participationNames.contains param.name with
    | false => rw [Bool.false_and]
    | true => rw [hnames _ h, Bool.and_true]

theorem mem_foldl_insertAttendee_of_mem {attendee : Attendee} {xs acc : List Attendee}
    (h : attendee ∈ acc ∨ attendee ∈ xs) :
    ∃ found ∈ xs.foldl insertAttendee acc, found.key = attendee.key := by
  induction xs generalizing acc attendee with
  | nil => exact ⟨attendee, by simpa using h, rfl⟩
  | cons x xs ih =>
    have hinsert : ∃ found ∈ insertAttendee acc x, found.key = x.key := by
      rw [insertAttendee]
      split
      · rename_i hany
        obtain ⟨found, hfound, hkey⟩ := any_eq_true.1 hany
        exact ⟨found, hfound, by simpa using hkey⟩
      · exact ⟨x, by simp, rfl⟩
    have hkeep (found : Attendee) (hfound : found ∈ acc) : found ∈ insertAttendee acc x := by
      rw [insertAttendee]
      split
      · exact hfound
      · exact mem_append_left _ hfound
    rw [mem_cons, ← or_assoc] at h
    rcases h with (hacc | rfl) | hxs
    · exact ih (.inl (hkeep _ hacc))
    · obtain ⟨found, hfound, hkey⟩ := hinsert
      obtain ⟨found', hfound', hkey'⟩ := ih (.inl hfound)
      exact ⟨found', hfound', hkey'.trans hkey⟩
    · exact ih (.inr hxs)

theorem StoredAt.listed_iff {cal : Calcard} {emails : List String} {ical : ICalendar}
    {id : InstanceId} {snapshot : ItipSnapshot} {comp : ICalendarComponent × ℕ}
    (h : StoredAt cal emails ical id snapshot comp)
    (hsmall : comp.1.entries.length ≤ 2 ^ 16) (email : String) :
    participationsOf cal emails comp.1.entries email ≠ [] ↔
      ∃ attendee, snapshot.attendeeByEmail email = some attendee := by
  constructor
  · intro hne
    obtain ⟨part, hpart⟩ := exists_mem_of_ne_nil _ hne
    obtain ⟨entry, hentry, hread⟩ := mem_filterMap.1 hpart
    obtain ⟨hread, hemail⟩ := Option.filter_eq_some_iff.1 hread
    obtain ⟨position, hposition⟩ := getElem?_of_mem hentry
    rw [← readAttendee_participation entry position] at hread
    obtain ⟨attendee, hattendee, rfl⟩ := Option.map_eq_some_iff.1 hread
    have hattendees : attendee ∈ [] ∨ attendee ∈ componentAttendees cal emails comp :=
      .inr (mem_filterMap.2
        ⟨(entry, position), mem_zipIdx_iff_getElem?.2 hposition, hattendee⟩)
    obtain ⟨found, hfound, hkey⟩ := mem_foldl_insertAttendee_of_mem hattendees
    have hmem : found ∈ snapshot.attendees := h.reorders.attendees.mem_iff.2 hfound
    cases hfind : snapshot.attendeeByEmail email with
    | some attendee => exact ⟨attendee, rfl⟩
    | none =>
      have hne := find?_eq_none.1 hfind found hmem
      have hsame : found.email.email = attendee.email.email := congrArg AttendeeKey.email hkey
      have hname : attendee.email.email = email := of_decide_eq_true hemail
      cases hne (decide_eq_true (hsame.trans hname))
  · rintro ⟨attendee, hattendee⟩
    obtain ⟨hmem, hemail⟩ := ItipSnapshot.attendeeByEmail_mem hattendee
    obtain ⟨entry, hentry, hread⟩ := h.participation_entry hsmall hmem
    refine ne_nil_of_mem (a := attendee.participation) (mem_filterMap.2
      ⟨entry, mem_of_getElem? hentry, ?_⟩)
    rw [participationOf, hread]
    simp [Attendee.participation, hemail]

/-- The entry that a message gives for an attendee. -/
def ItipSnapshot.entryOf (itipSnapshot : ItipSnapshot) (attendee : Attendee) : ICalendarEntry :=
  itipSnapshot.comp.entries.getD attendee.entryId.toNat
    { name := .attendee, params := [], values := [] }

section Delegates

variable {cal : Calcard} {emails : List String} {event itip : ICalendar} {id : InstanceId}
  {snapshot update : ItipSnapshot} {comp comp' : ICalendarComponent × ℕ}

theorem StoredAt.entryOf (h : StoredAt cal emails itip id update comp')
    (hsmall : comp'.1.entries.length ≤ 2 ^ 16) {attendee : Attendee}
    (hattendee : attendee ∈ update.attendees) :
    readParticipation cal emails (update.entryOf attendee) =
      some attendee.participation := by
  obtain ⟨entry, hentry, hread⟩ := h.participation_entry hsmall hattendee
  rw [ItipSnapshot.entryOf, h.comp_eq, getD_eq_getElem?_getD, hentry]
  exact hread

theorem StoredAt.entryId_ne (h : StoredAt cal emails event id snapshot comp)
    (hsmall : comp.1.entries.length ≤ 2 ^ 16) {email other : String} {attendee : Attendee}
    {index : ℕ} (hattendee : snapshot.attendeeByEmail other = some attendee)
    (hentry : comp.1.entries[index]? = some entry)
    (hread : readParticipation cal emails entry = some part) (hemail : part.email = email)
    (hne : other ≠ email) : attendee.entryId.toNat ≠ index := by
  rintro rfl
  obtain ⟨hmem, hother⟩ := ItipSnapshot.attendeeByEmail_mem hattendee
  obtain ⟨entry', hentry', hread'⟩ := h.participation_entry hsmall hmem
  rw [hentry, Option.some.injEq] at hentry'
  rw [← hentry', hread, Option.some.injEq] at hread'
  exact hne (hother.symm.trans ((congrArg Participation.email hread').symm.trans hemail))

/-- What the delegations of a reply do to the entry at an index that belongs to one address. -/
theorem entryAfter_delegates {email : String} {delegated : Attendee} {index : ℕ}
    (hdelegated : snapshot.attendeeByEmail email = some delegated)
    (hposition : snapshot.compId.toNat = comp.2)
    (hindex : ∀ other ≠ email, ∀ attendee, snapshot.attendeeByEmail other = some attendee →
      attendee.entryId.toNat ≠ index) (delegates : List Email) (entry : ICalendarEntry) :
    entryAfter (delegates.flatMap (replyDelegate snapshot update)) comp.2 index entry =
      if delegated.entryId.toNat = index ∧ email ∈ delegates.map Email.email then
        match update.attendeeByEmail email with
        | some itipDelegated =>
          if delegated.key ≠ itipDelegated.key then takeOver entry (update.entryOf itipDelegated)
          else entry
        | none => entry
      else entry := by
  induction delegates generalizing entry with
  | nil => simp [entryAfter]
  | cons delegate delegates ih =>
    rw [flatMap_cons, entryAfter_append, ih]
    by_cases hemail : delegate.email = email
    · have hone : entryAfter (replyDelegate snapshot update delegate) comp.2 index entry =
          match update.attendeeByEmail email with
          | some itipDelegated =>
            if delegated.key ≠ itipDelegated.key ∧ delegated.entryId.toNat = index then
              takeOver entry (update.entryOf itipDelegated)
            else entry
          | none => entry := by
        simp only [replyDelegate, hemail, hdelegated]
        cases hitip : update.attendeeByEmail email with
        | none => rfl
        | some itipDelegated =>
          by_cases hkey : delegated.key = itipDelegated.key
          · simp [hkey, entryAfter]
          · by_cases hindex : delegated.entryId.toNat = index
            · simp [hkey, hindex, hposition, entryAfter, MergeAction.editEntry, takeOver,
                ItipSnapshot.entryOf]
            · simp [hkey, hindex, entryAfter, MergeAction.editEntry]
      have hmem : email ∈ (delegate :: delegates).map Email.email := by simp [hemail]
      rw [hone]
      cases hitip : update.attendeeByEmail email with
      | none => simp
      | some itipDelegated =>
        by_cases hkey : delegated.key = itipDelegated.key
        · simp [hkey]
        · by_cases hindex : delegated.entryId.toNat = index
          · simp only [hindex, hmem, ne_eq, hkey, not_false_eq_true, true_and, if_true,
              takeOver_takeOver, ite_self]
          · simp [hindex]
    · have hone : entryAfter (replyDelegate snapshot update delegate) comp.2 index entry =
          entry := by
        simp only [replyDelegate]
        split
        · rfl
        · split
          · rename_i other hother
            have hne := hindex _ hemail _ hother
            split <;> simp [entryAfter, MergeAction.editEntry, hne]
          · rfl
      simp only [hone, map_cons, mem_cons, Ne.symm hemail, false_or]

theorem entryAfter_name_values (actions : List MergeAction) (position index : ℕ)
    (entry : ICalendarEntry) :
    (entryAfter actions position index entry).name = entry.name ∧
      (entryAfter actions position index entry).values = entry.values := by
  induction actions generalizing entry with
  | nil => exact ⟨rfl, rfl⟩
  | cons action actions ih =>
    have hstep : (action.editEntry position index entry).name = entry.name ∧
        (action.editEntry position index entry).values = entry.values := by
      cases action with
      | addParameters | removeParameters =>
        rw [MergeAction.editEntry]
        split <;> exact ⟨rfl, rfl⟩
      | addEntries | removeEntries | addComponent | removeComponent => exact ⟨rfl, rfl⟩
    have hrest := ih (action.editEntry position index entry)
    exact ⟨hrest.1.trans hstep.1, hrest.2.trans hstep.2⟩

theorem participationOf_isSome {entry other : ICalendarEntry} (hname : entry.name = other.name)
    (hvalues : entry.values = other.values) (email : String) :
    (participationOf cal emails email entry).isSome =
      (participationOf cal emails email other).isSome := by
  have hread (entry : ICalendarEntry) : (participationOf cal emails email entry).isSome =
      (entry.name = .attendee &&
        ((entryEmail cal emails entry).map Email.email).any (· = email)) := by
    rw [participationOf, readParticipation, readAttendee]
    by_cases h : entry.name = .attendee
    · cases hemail : entryEmail cal emails entry with
      | none => simp [h]
      | some address =>
        simp [h, Attendee.participation, (foldl_readParam_entryId _ _).2]
    · simp [h]
  rw [hread, hread, hname, entryEmail, entryEmail, hvalues]

/-- The reply states something that the stored entry of its sender does not. -/
def Answers (attendee updated : Attendee) (update : ItipSnapshot) : Prop :=
  attendee.partStat ≠ updated.partStat ∨ attendee.rsvp ≠ updated.rsvp ∨
    attendee.delegatedTo.map Email.email ≠ updated.delegatedTo.map Email.email ∨
    update.requestStatus ≠ []

theorem replyParameters_ne_nil_iff {attendee updated : Attendee} :
    (replyParameters attendee updated update.requestStatus).1 ≠ [] ↔
      Answers attendee updated update := by
  simp only [replyParameters, Answers]
  by_cases hstat : attendee.partStat = updated.partStat
  · by_cases hrsvp : attendee.rsvp = updated.rsvp
    · by_cases hto : attendee.delegatedTo.map Email.email = updated.delegatedTo.map Email.email
      · by_cases hstatus : update.requestStatus = [] <;> simp [hstat, hrsvp, hto, hstatus]
      · simp [hto]
    · simp [hrsvp]
  · simp [hstat]

/-- The changes of a reply to the parameters and the attendees of an instance. -/
def answerActions (snapshot update : ItipSnapshot) (attendee updated : Attendee) :
    List MergeAction :=
  let parameters := replyParameters attendee updated update.requestStatus
  if parameters.1 ≠ [] then
    [.removeParameters snapshot.compId attendee.entryId parameters.1,
      .addParameters snapshot.compId attendee.entryId parameters.2] ++
    updated.delegatedTo.flatMap (replyDelegate snapshot update)
  else []

/-- The changes to the progress of a task concern no attendee. -/
theorem participationsOf_replyAttendee (snapshot update : ItipSnapshot)
    (attendee updated : Attendee) (position : ℕ) (entries : List ICalendarEntry) (email : String) :
    participationsOf cal emails
        (entriesAfter (replyAttendee snapshot update attendee updated) position entries) email =
      participationsOf cal emails
        (entriesAfter (answerActions snapshot update attendee updated) position entries) email := by
  have hsplit : replyAttendee snapshot update attendee updated =
      answerActions snapshot update attendee updated ++
        if snapshot.comp.componentType = .vTodo ∧
            update.comp.entries.filter (·.name.isProgress) ≠ [] then
          [.removeEntries snapshot.compId
              ((update.comp.entries.filter (·.name.isProgress)).map (·.name)),
            .addEntries snapshot.compId (update.comp.entries.filter (·.name.isProgress))]
        else [] := rfl
  rw [hsplit, entriesAfter_append]
  split
  swap
  · rfl
  by_cases hposition : snapshot.compId.toNat = position
  swap
  · rw [entriesAfter_of_target_ne]
    intro action haction
    rcases mem_cons.1 haction with rfl | haction
    · simpa [MergeAction.target] using hposition
    · rw [mem_singleton.1 haction]
      simpa [MergeAction.target] using hposition
  have hprogress : ∀ entry ∈ update.comp.entries.filter (·.name.isProgress),
      entry.name ≠ .attendee := fun entry hentry hname => by
    have hprogress := (mem_filter.1 hentry).2
    rw [hname] at hprogress
    cases hprogress
  have hattendee : (!((update.comp.entries.filter (·.name.isProgress)).map (·.name)).contains
      ICalendarProperty.attendee) := by
    simpa using hprogress
  rw [entriesAfter_replace hposition, participationsOf_append, participationsOf_eq_nil hprogress,
    append_nil, participationsOf_eq_filter, participationsOf_eq_filter]
  exact congrArg _ (participations_filter (p := fun name => !_) hattendee _)

theorem replyDelegate_editsFirst (h : StoredAt cal emails event id snapshot comp)
    (hsmall : comp.1.entries.length ≤ 2 ^ 16) {delegate : Email} {action : MergeAction}
    (haction : action ∈ replyDelegate snapshot update delegate) :
    action.EditsFirst comp.1.entries.length := by
  simp only [replyDelegate] at haction
  split at haction
  · cases haction
  · split at haction
    · rename_i delegated hdelegated
      obtain ⟨entry, hentry, -⟩ :=
        h.participation_entry hsmall (ItipSnapshot.attendeeByEmail_mem hdelegated).1
      have hlt : delegated.entryId.toNat < comp.1.entries.length :=
        (List.getElem?_eq_some_iff.1 hentry).1
      split at haction
      · rcases mem_cons.1 haction with rfl | haction
        · exact hlt
        · rw [mem_singleton.1 haction]
          exact hlt
      · cases haction
    · rw [mem_singleton.1 haction]
      trivial

theorem answerActions_editsFirst (h : StoredAt cal emails event id snapshot comp)
    (hsmall : comp.1.entries.length ≤ 2 ^ 16) {attendee : Attendee}
    (hattendee : attendee ∈ snapshot.attendees) (updated : Attendee) :
    ∀ action ∈ answerActions snapshot update attendee updated,
      action.EditsFirst comp.1.entries.length := by
  intro action haction
  obtain ⟨entry, hentry, -⟩ := h.participation_entry hsmall hattendee
  have hlt : attendee.entryId.toNat < comp.1.entries.length :=
    (List.getElem?_eq_some_iff.1 hentry).1
  simp only [answerActions] at haction
  split at haction
  · rcases mem_append.1 haction with haction | haction
    · rcases mem_cons.1 haction with rfl | haction
      · exact hlt
      · rw [mem_singleton.1 haction]
        exact hlt
    · obtain ⟨delegate, -, haction⟩ := mem_flatMap.1 haction
      exact replyDelegate_editsFirst h hsmall haction
  · cases haction

/-- The attendees that a reply adds to an instance were not listed in it. -/
theorem addedEntries_answerActions (hupdate : StoredAt cal emails itip id update comp')
    (hsmall : comp'.1.entries.length ≤ 2 ^ 16) (attendee updated : Attendee) (position : ℕ)
    {email : String} {delegated : Attendee}
    (hdelegated : snapshot.attendeeByEmail email = some delegated) :
    participationsOf cal emails
      (addedEntries (answerActions snapshot update attendee updated) position) email = [] := by
  refine filterMap_eq_nil_iff.2 fun entry hentry => ?_
  obtain ⟨action, haction, hentry⟩ := mem_flatMap.1 hentry
  simp only [answerActions] at haction
  split at haction
  swap
  · cases haction
  rcases mem_append.1 haction with haction | haction
  · rcases mem_cons.1 haction with rfl | haction
    · cases hentry
    · rw [mem_singleton.1 haction] at hentry
      cases hentry
  obtain ⟨delegate, -, haction⟩ := mem_flatMap.1 haction
  simp only [replyDelegate] at haction
  split at haction
  · cases haction
  rename_i itipDelegated hitip
  split at haction
  · split at haction
    · rcases mem_cons.1 haction with rfl | haction
      · cases hentry
      · rw [mem_singleton.1 haction] at hentry
        cases hentry
    · cases haction
  · rename_i hunknown
    rw [mem_singleton.1 haction] at hentry
    simp only at hentry
    split at hentry
    swap
    · cases hentry
    obtain ⟨hmem, hemail⟩ := ItipSnapshot.attendeeByEmail_mem hitip
    have hread := hupdate.entryOf hsmall hmem
    rw [mem_singleton.1 hentry]
    have hne : itipDelegated.email.email ≠ email := fun h => by
      rw [← hemail, h, hdelegated] at hunknown
      cases hunknown
    refine (congrArg (Option.filter _) hread).trans ?_
    simp [Attendee.participation, hne]

section

variable (h : StoredAt cal emails event id snapshot comp)
  (hsmall : comp.1.entries.length ≤ 2 ^ 16) (hposition : snapshot.compId.toNat = comp.2)
  {sender email : String} {attendee delegated : Attendee}
include h hsmall hposition

/-- The entry of another address than the sender's after a reply. -/
theorem entryAfter_answerActions (hne : email ≠ sender)
    (hattendee : snapshot.attendeeByEmail sender = some attendee)
    (hdelegated : snapshot.attendeeByEmail email = some delegated) (updated : Attendee) {index : ℕ}
    {entry : ICalendarEntry} (hentry : comp.1.entries[index]? = some entry)
    (hread : readParticipation cal emails entry = some part) (hemail : part.email = email) :
    (∃ itipDelegated, Answers attendee updated update ∧
        email ∈ updated.delegatedTo.map Email.email ∧ delegated.entryId.toNat = index ∧
        update.attendeeByEmail email = some itipDelegated ∧ delegated.key ≠ itipDelegated.key ∧
        entryAfter (answerActions snapshot update attendee updated) comp.2 index entry =
          takeOver entry (update.entryOf itipDelegated)) ∨
      ((∀ itipDelegated, Answers attendee updated update →
          email ∈ updated.delegatedTo.map Email.email → delegated.entryId.toNat = index →
          update.attendeeByEmail email = some itipDelegated → delegated.key = itipDelegated.key) ∧
        entryAfter (answerActions snapshot update attendee updated) comp.2 index entry =
          entry) := by
  have hindex (other : String) (hother : other ≠ email) (attendee : Attendee)
      (hattendee : snapshot.attendeeByEmail other = some attendee) :
      attendee.entryId.toNat ≠ index :=
    h.entryId_ne hsmall hattendee hentry hread hemail hother
  by_cases hanswers : Answers attendee updated update
  swap
  · refine .inr ⟨fun _ hanswers' => absurd hanswers' hanswers, ?_⟩
    rw [answerActions, if_neg fun hne => hanswers (replyParameters_ne_nil_iff.1 hne)]
    rfl
  have hown := hindex sender hne.symm attendee hattendee
  have hafter : entryAfter (answerActions snapshot update attendee updated) comp.2 index entry =
      entryAfter (updated.delegatedTo.flatMap (replyDelegate snapshot update)) comp.2 index
        entry := by
    rw [answerActions, if_pos (replyParameters_ne_nil_iff.2 hanswers), entryAfter_append]
    congr 1
    simp [entryAfter, MergeAction.editEntry, hown]
  rw [hafter, entryAfter_delegates hdelegated hposition hindex]
  by_cases hdelegates : delegated.entryId.toNat = index ∧
    email ∈ updated.delegatedTo.map Email.email
  swap
  · rw [if_neg hdelegates]
    exact .inr ⟨fun _ _ hmem hid => absurd ⟨hid, hmem⟩ hdelegates, rfl⟩
  rw [if_pos hdelegates]
  cases hitip : update.attendeeByEmail email with
  | none => exact .inr ⟨(fun _ _ _ _ h => by cases h), rfl⟩
  | some itipDelegated =>
    by_cases hkey : delegated.key = itipDelegated.key
    · refine .inr ⟨fun other _ _ _ hother => ?_, by simp [hkey]⟩
      rw [← Option.some.inj hother, hkey]
    · exact .inl ⟨itipDelegated, hanswers, hdelegates.2, hdelegates.1, rfl, hkey, by simp [hkey]⟩

/-- **Whose participation a reply changes in a stored instance**: of the others, those that the
sender delegates to, when the message states another participation for them. -/
theorem replyAttendee_participations (hupdate : StoredAt cal emails itip id update comp')
    (hsmall' : comp'.1.entries.length ≤ 2 ^ 16) (hne : email ≠ sender)
    (hattendee : snapshot.attendeeByEmail sender = some attendee)
    (hdelegated : snapshot.attendeeByEmail email = some delegated) (updated : Attendee) :
    participationsOf cal emails
        (entriesAfter (replyAttendee snapshot update attendee updated) comp.2 comp.1.entries)
        email =
      participationsOf cal emails comp.1.entries email ↔
    (Answers attendee updated update → email ∈ updated.delegatedTo.map Email.email →
      ∀ itipDelegated, update.attendeeByEmail email = some itipDelegated →
        delegated.participation = itipDelegated.participation) := by
  obtain ⟨hmem, hemail⟩ := ItipSnapshot.attendeeByEmail_mem hdelegated
  obtain ⟨own, hown, hreadOwn⟩ := h.participation_entry hsmall hmem
  have hedits : ∀ action ∈ answerActions snapshot update attendee updated,
      action.EditsFirst comp.1.entries.length :=
    answerActions_editsFirst h hsmall (ItipSnapshot.attendeeByEmail_mem hattendee).1 updated
  have hmapIdx : entriesAfter _ comp.2 _ = _ := entriesAfter_eq_mapIdx hedits []
  rw [append_nil, nil_append] at hmapIdx
  rw [participationsOf_replyAttendee, hmapIdx, participationsOf_append,
    addedEntries_answerActions hupdate hsmall' attendee updated comp.2 hdelegated, append_nil,
    participationsOf, participationsOf, filterMap_mapIdx_eq_iff fun index entry _ => ?_]
  swap
  · have hsame := entryAfter_name_values (answerActions snapshot update attendee updated) comp.2
      index entry
    exact participationOf_isSome hsame.1 hsame.2 email
  have htake (itipDelegated : Attendee) (hitip : update.attendeeByEmail email = some itipDelegated)
      (entry : ICalendarEntry) (part : Participation)
      (hread : readParticipation cal emails entry = some part)
      (hpart : part.email = email) :
      participationOf cal emails email (takeOver entry (update.entryOf itipDelegated)) =
        some itipDelegated.participation := by
    obtain ⟨hitipMem, hitipEmail⟩ := ItipSnapshot.attendeeByEmail_mem hitip
    rw [participationOf, readParticipation_takeOver hread (hupdate.entryOf hsmall' hitipMem)
      (hpart.trans hitipEmail.symm)]
    simp [Attendee.participation, hitipEmail]
  have hkept (entry : ICalendarEntry) (part : Participation)
      (hread : readParticipation cal emails entry = some part)
      (hpart : part.email = email) :
      participationOf cal emails email entry = some part := by
    rw [participationOf, hread]
    simp [hpart]
  constructor
  · intro hall hanswers hdelegates itipDelegated hitip
    have hsame := hall _ _ hown
    rw [hkept own _ hreadOwn hemail] at hsame
    rcases entryAfter_answerActions h hsmall hposition hne hattendee hdelegated updated hown
      hreadOwn hemail with ⟨other, -, -, -, hother, -, hafter⟩ | ⟨hkey, -⟩
    · rw [hafter, htake other hother own _ hreadOwn hemail] at hsame
      rw [hitip] at hother
      rw [Option.some.inj hother]
      exact (Option.some.inj hsame).symm
    · exact Attendee.participation_eq_of_key (hkey _ hanswers hdelegates rfl hitip)
  · intro hcondition index entry hentry
    cases hread : participationOf cal emails email entry with
    | none =>
      have hsame := entryAfter_name_values (answerActions snapshot update attendee updated) comp.2
        index entry
      have hsome : (participationOf cal emails email _).isSome = _ :=
        participationOf_isSome hsame.1 hsame.2 email
      rw [hread, Option.isSome_none, Option.isSome_eq_false_iff] at hsome
      exact Option.isNone_iff_eq_none.1 hsome
    | some part =>
      obtain ⟨hread', hpart⟩ := Option.filter_eq_some_iff.1 hread
      have hpart : part.email = email := of_decide_eq_true hpart
      rcases entryAfter_answerActions h hsmall hposition hne hattendee hdelegated updated hentry
        hread' hpart with ⟨other, hanswers, hdelegates, hid, hother, -, hafter⟩ | ⟨-, hafter⟩
      · rw [hafter, htake other hother entry part hread' hpart,
          ← hcondition hanswers hdelegates other hother]
        rw [hid, hentry, Option.some.injEq] at hown
        rw [← hown, hread'] at hreadOwn
        rw [hreadOwn]
      · rw [hafter, hread]

end

end Delegates

/-! ## A whole reply -/

/-- The calendar object that the result of a message leaves. -/
def MergeResult.merged (cal : Calcard) (event : ICalendar) : MergeResult → ICalendar
  | .actions changes => itipMergeChanges cal event changes
  | .message _ | .none => event

section Warranted

variable (cal : Calcard) (emails : List String)

def mainEntries (event : ICalendar) : List ICalendarEntry :=
  (((schedulingComponents cal event).find? fun comp =>
    componentInstance cal event.zones comp.1 = .main).map fun comp => comp.1.entries).getD []

/-- The participation status of an address among some entries. -/
def statusOf (entries : List ICalendarEntry) (email : String) :
    Option ICalendarParticipationStatus :=
  (participationsOf cal emails entries email).head?.bind (·.partStat)

/-- The addresses that an address delegates to. -/
def delegatesOf (entries : List ICalendarEntry) (email : String) : List String :=
  (participationsOf cal emails entries email).flatMap (·.delegatedTo)

/-- In a new instance only the sender and its new delegates differ from the main instance. -/
def Warranted (event : ICalendar) (sender : String) (entries : List ICalendarEntry) : Prop :=
  ∀ part ∈ participations cal emails entries, part.email ≠ sender →
    ¬ (part.email ∈ delegatesOf cal emails entries sender ∧
      part.email ∉ delegatesOf cal emails (mainEntries cal event) sender) →
    part.partStat = statusOf cal emails (mainEntries cal event) part.email

/-- The reply has only spoken for its sender: the other attendees have the participations that they
had, in the new instances those of the main one. -/
structure SpeaksForSender (event merged : ICalendar) (sender : String) : Prop where
  instances : ∀ comp ∈ schedulingComponents cal event,
    componentInstance cal merged.zones (merged.component comp.2) =
      componentInstance cal event.zones comp.1
  listed : ∀ comp ∈ schedulingComponents cal event, ∀ email ≠ sender,
    participationsOf cal emails comp.1.entries email ≠ [] →
    participationsOf cal emails (merged.component comp.2).entries email =
      participationsOf cal emails comp.1.entries email
  created : ∀ component ∈ merged.components.drop event.components.length,
    Warranted cal emails event sender component.entries

/-- The message states for the listed delegates of its sender the participations that they have, and
for the attendees of its new instances those of the main one. -/
structure StatesOthersAsStored (event : ICalendar) (snapshots itipSnapshots : ItipSnapshots)
    (sender : String) : Prop where
  delegates : ∀ id snapshot update attendee updated, snapshots.get? id = some snapshot →
    itipSnapshots.get? id = some update → snapshot.attendeeByEmail sender = some attendee →
    update.attendeeByEmail sender = some updated → Answers attendee updated update →
    ∀ delegate ∈ updated.delegatedTo, delegate.email ≠ sender → ∀ delegated itipDelegated,
      snapshot.attendeeByEmail delegate.email = some delegated →
      update.attendeeByEmail delegate.email = some itipDelegated →
      delegated.participation = itipDelegated.participation
  created : event.hasRoot → ∀ update ∈ itipSnapshots.components,
    snapshots.get? update.1 = none →
    Warranted cal emails event sender update.2.comp.entries

end Warranted

section Reply

variable {cal : Calcard} {emails : List String} {event itip : ICalendar}
  {snapshots itipSnapshots : ItipSnapshots} {actions : List MergeAction} {sender : String}

theorem warranted_congr {entries entries' : List ICalendarEntry}
    (h : participations cal emails entries = participations cal emails entries') :
    Warranted cal emails event sender entries ↔
      Warranted cal emails event sender entries' := by
  simp only [Warranted, delegatesOf, participationsOf_eq_filter, h]

section

variable (laws : cal.Laws) (h : Scheduled cal event actions) (hremoved : removedIds actions = [])
include laws h hremoved

theorem merge_contents :
    (itipMergeChanges cal event actions).components.map ICalendarComponent.contents =
      ((event.components.map ICalendarComponent.contents).mapIdx fun position comp =>
        (comp.1, entriesAfter actions position comp.2)) ++
        if event.hasRoot then (addedComponents actions).map ICalendarComponent.contents
        else [] := by
  have hids : (actions.foldl applyMergeAction (event, [])).2 = [] := by
    rw [foldl_removed, hremoved]
    rfl
  have hcontents : (actions.foldl applyMergeAction (event, [])).1.components.map
      ICalendarComponent.contents =
      ((event.components.map ICalendarComponent.contents).mapIdx fun position comp =>
        (comp.1, entriesAfter actions position comp.2)) ++ ([] ++ _) :=
    foldl_contents (append_nil _).symm (fun _ => rfl) fun action haction id hid => by
      simpa using lt_length_of_scheduled laws (h.targets action haction id hid)
  rw [itipMergeChanges]
  simp only [hids]
  exact hcontents

theorem merge_component {comp}
    (hcomp : comp ∈ schedulingComponents cal event) :
    ((itipMergeChanges cal event actions).component comp.2).entries =
      entriesAfter actions comp.2 comp.1.entries := by
  have hget := mem_zipIdx_iff_getElem?.1 (mem_filter.1 hcomp).1
  have hlt : comp.2 < event.components.length := (List.getElem?_eq_some_iff.1 hget).1
  have hcontents := congrArg (·[comp.2]?) (merge_contents laws h hremoved)
  simp only [getElem?_map] at hcontents
  rw [getElem?_append_left (by simpa using hlt), getElem?_mapIdx, getElem?_map,
    hget] at hcontents
  obtain ⟨after, hafter, heq⟩ := Option.map_eq_some_iff.1 hcontents
  rw [ICalendar.component, getD_eq_getElem?_getD, hafter]
  exact congrArg Prod.snd heq

theorem merge_drop :
    ((itipMergeChanges cal event actions).components.drop event.components.length).map
        ICalendarComponent.contents =
      if event.hasRoot then (addedComponents actions).map ICalendarComponent.contents else [] := by
  rw [map_drop, merge_contents laws h hremoved]
  exact drop_left' (by simp)

end

theorem reply_instance (h : Readings cal emails event itip snapshots itipSnapshots)
    (hactions : handleReply snapshots itipSnapshots sender = .ok actions)
    {comp} (hcomp : comp ∈ schedulingComponents cal event) :
    (entriesOf .recurrenceId (entriesAfter actions comp.2 comp.1.entries)).map
        ICalendarEntry.core =
      (entriesOf .recurrenceId comp.1.entries).map ICalendarEntry.core := by
  obtain ⟨snapshot, hget, hstored⟩ := h.stored.get?_of_mem hcomp
  obtain ⟨hmentioned, hother, -⟩ := reply_effect h hactions hget hstored comp.1.entries
  cases hupdate : itipSnapshots.get? (componentInstance cal event.zones comp.1) with
  | none => rw [hother hupdate]
  | some update =>
    obtain ⟨attendee, updated, -, -, hentries⟩ := hmentioned update hupdate
    obtain ⟨comp', hcomp'⟩ := h.message.storedAt hupdate
    have hsmall : comp'.1.entries.length ≤ 2 ^ 16 :=
      h.messageEntries _ (fst_mem_of_mem_zipIdx (mem_filter.1 hcomp'.mem).1)
    rw [hentries]
    exact entriesAfter_core (replyAttendee_spares hcomp' hsmall _ _ (by decide) rfl) _ _

theorem reply_result {now : PartialDateTime} {result : MergeResult}
    (hlocal : snapshots.organizer.email.isLocal) (hmethod : itipMethod itip = .ok .reply)
    (hresult : itipProcessMessage cal now event snapshots itip itipSnapshots sender =
      .ok result) :
    ∃ actions, handleReply snapshots itipSnapshots sender = .ok actions ∧
      result.merged cal event = itipMergeChanges cal event actions := by
  rw [itipProcessMessage] at hresult
  split at hresult
  · cases hresult
  simp only [hmethod, hlocal, mergeActions, organizerActions, bind, Except.bind] at hresult
  split at hresult
  · cases hresult
  split at hresult
  · rename_i hrefresh
    simp at hrefresh
  cases hreply : handleReply snapshots itipSnapshots sender with
  | error e =>
    rw [hreply] at hresult
    cases hresult
  | ok actions =>
    rw [hreply] at hresult
    refine ⟨actions, rfl, ?_⟩
    rw [← Except.ok.inj hresult]
    cases actions <;> rfl

/-- **When a reply only speaks for its sender.** -/
theorem reply_speaks_for_sender_iff (laws : cal.Laws)
    (h : Readings cal emails event itip snapshots itipSnapshots) (now : PartialDateTime)
    {result : MergeResult} (hlocal : snapshots.organizer.email.isLocal)
    (hmethod : itipMethod itip = .ok .reply)
    (hresult : itipProcessMessage cal now event snapshots itip itipSnapshots sender =
      .ok result) :
    SpeaksForSender cal emails event (result.merged cal event) sender ↔
      StatesOthersAsStored cal emails event snapshots itipSnapshots sender := by
  obtain ⟨actions, hactions, hmerged⟩ := reply_result hlocal hmethod hresult
  have hscheduled := reply_scheduled h hactions
  have hremoved : removedIds actions = [] := by
    obtain ⟨blocks, hblocks, rfl⟩ := handleReply_eq_ok_iff.1 hactions
    exact removedIds_of_concerns (h.reply_concerns sender) hblocks
  have hentries {comp : ICalendarComponent × ℕ} (hcomp : comp ∈ schedulingComponents cal event) :=
    merge_component laws hscheduled hremoved hcomp
  have hsmall {comp : ICalendarComponent × ℕ} (hcomp : comp ∈ schedulingComponents cal event) :
      comp.1.entries.length ≤ 2 ^ 16 :=
    h.eventEntries _ (fst_mem_of_mem_zipIdx (mem_filter.1 hcomp).1)
  have hsmall' {comp : ICalendarComponent × ℕ} (hcomp : comp ∈ schedulingComponents cal itip) :
      comp.1.entries.length ≤ 2 ^ 16 :=
    h.messageEntries _ (fst_mem_of_mem_zipIdx (mem_filter.1 hcomp).1)
  have hnew (update : InstanceId × ItipSnapshot) :
      Warranted cal emails event sender (replyComponent update.2).entries ↔
        Warranted cal emails event sender update.2.comp.entries := by
    refine warranted_congr ?_
    rw [replyComponent, newComponent, append_nil]
    exact participations_filter (p := fun name => !!isReplied _ name) rfl _
  rw [hmerged]
  constructor
  · intro hspeaks
    refine ⟨fun id snapshot update attendee updated hget hupdate hattendee hupdated hanswers
      delegate hdelegate hne delegated itipDelegated hdelegated hitip => ?_,
      fun hroot update hmem hunknown => ?_⟩
    · obtain ⟨comp, hcomp⟩ := h.stored.storedAt hget
      obtain ⟨comp', hcomp'⟩ := h.message.storedAt hupdate
      have hlisted := hspeaks.listed comp hcomp.mem delegate.email hne
        ((hcomp.listed_iff (hsmall hcomp.mem) _).2 ⟨delegated, hdelegated⟩)
      obtain ⟨attendee', updated', hattendee', hupdated', hafter⟩ :=
        (reply_effect h hactions hget hcomp comp.1.entries).1 update hupdate
      cases hattendee.symm.trans hattendee'
      cases hupdated.symm.trans hupdated'
      rw [hentries hcomp.mem, hafter, replyAttendee_participations hcomp (hsmall hcomp.mem)
        (h.position hcomp) hcomp' (hsmall' hcomp'.mem) hne hattendee hdelegated] at hlisted
      exact hlisted hanswers (mem_map_of_mem hdelegate) itipDelegated hitip
    · have hdrop := merge_drop laws hscheduled hremoved
      rw [if_pos hroot, reply_added hactions, map_map] at hdrop
      have hadded : (replyComponent update.2).contents ∈
          ((itipMergeChanges cal event actions).components.drop event.components.length).map
            ICalendarComponent.contents := by
        rw [hdrop]
        exact mem_map.2 ⟨update, mem_filter.2 ⟨hmem, by simp [hunknown]⟩, rfl⟩
      obtain ⟨component, hcomponent, hcontents⟩ := mem_map.1 hadded
      have hsame : component.entries = (replyComponent update.2).entries :=
        congrArg Prod.snd hcontents
      have hwarranted := hspeaks.created component hcomponent
      rw [hsame] at hwarranted
      exact (hnew update).1 hwarranted
  · intro hstates
    refine ⟨fun comp hcomp => ?_, fun comp hcomp email hne hlisted => ?_,
      fun component hcomponent => ?_⟩
    · rw [componentInstance, hentries hcomp, zones_merge laws hscheduled,
        filterMap_readInstanceId_congr cal event.zones (reply_instance h hactions hcomp)]
      rfl
    · rw [hentries hcomp]
      obtain ⟨snapshot, hget, hstored⟩ := h.stored.get?_of_mem hcomp
      obtain ⟨hmentioned, hother, -⟩ := reply_effect h hactions hget hstored comp.1.entries
      cases hupdate : itipSnapshots.get? (componentInstance cal event.zones comp.1) with
      | none => rw [hother hupdate]
      | some update =>
        obtain ⟨attendee, updated, hattendee, hupdated, hafter⟩ := hmentioned update hupdate
        obtain ⟨comp', hcomp'⟩ := h.message.storedAt hupdate
        obtain ⟨delegated, hdelegated⟩ := (hstored.listed_iff (hsmall hcomp) _).1 hlisted
        rw [hafter, replyAttendee_participations hstored (hsmall hcomp) (h.position hstored)
          hcomp' (hsmall' hcomp'.mem) hne hattendee hdelegated]
        intro hanswers hmem itipDelegated hitip
        obtain ⟨delegate, hdelegate, rfl⟩ := mem_map.1 hmem
        exact hstates.delegates _ snapshot update attendee updated hget hupdate hattendee hupdated
          hanswers delegate hdelegate hne delegated itipDelegated hdelegated hitip
    · have hdrop := merge_drop laws hscheduled hremoved
      have hmem : component.contents ∈ ((itipMergeChanges cal event actions).components.drop
          event.components.length).map ICalendarComponent.contents := mem_map_of_mem hcomponent
      rw [hdrop] at hmem
      split at hmem
      swap
      · cases hmem
      rename_i hroot
      rw [reply_added hactions, map_map] at hmem
      obtain ⟨update, hupdate, hcontents⟩ := mem_map.1 hmem
      obtain ⟨hupdate, hunknown⟩ := mem_filter.1 hupdate
      have hwarranted := hstates.created hroot update hupdate (by simpa using hunknown)
      have hsame : (replyComponent update.2).entries = component.entries :=
        congrArg Prod.snd hcontents
      rw [← hsame]
      exact (hnew update).2 hwarranted

end Reply

/-! ## A reply for another attendee -/

/-- An attendee entry with its status and the address it delegates to. -/
def attendeeEntry (address : String) (status : ICalendarParticipationStatus)
    (delegatedTo : Option String) : ICalendarEntry where
  name := .attendee
  params := { name := .partstat, value := .partstat status } ::
    delegatedTo.toList.map fun address =>
      { name := .delegatedTo, value := .uri (.location ("mailto:" ++ address)) }
  values := [.text ("mailto:" ++ address)]

/-- A meeting of two attendees besides the organizer, in the organizer's account or in a message. -/
def review (root : List ICalendarEntry) (eve bob : ICalendarEntry) : ICalendar :=
  ⟨[{ componentType := .vCalendar, entries := root, componentIds := [1] },
    { componentType := .vEvent
      entries := [
        { name := .uid, params := [], values := [.text "review"] },
        addressEntry .organizer "me@a.org", eve, bob]
      componentIds := [] }]⟩

/-- The stored meeting, which nobody has answered. -/
def storedReview : ICalendar :=
  review [] (attendeeEntry "eve@b.org" .needsAction none)
    (attendeeEntry "bob@b.org" .needsAction none)

/-- One attendee declines and delegates to the other, whom it lists with a status. -/
def delegatingReply (status : ICalendarParticipationStatus) : ICalendar :=
  review [{ name := .method, params := [], values := [.method .reply] }]
    (attendeeEntry "eve@b.org" .delegated (some "bob@b.org"))
    (attendeeEntry "bob@b.org" status none)

/-- By her reply Eve accepts for Bob, who was invited like her. -/
theorem reply_for_another :
    ¬ ∀ (cal : Calcard), cal.Laws → ∀ (emails : List String) (now : PartialDateTime)
        (event itip : ICalendar) (snapshots itipSnapshots : ItipSnapshots) (sender : String)
        (result : MergeResult),
        Readings cal emails event itip snapshots itipSnapshots →
        snapshots.organizer.email.isLocal →
        itipMethod itip = .ok .reply →
        itipProcessMessage cal now event snapshots itip itipSnapshots sender = .ok result →
        SpeaksForSender cal emails event (result.merged cal event) sender := by
  intro h
  have hspeaks := h .plain Calcard.plain_laws ["me@a.org"] {} storedReview
    (delegatingReply .accepted) _ _ "eve@b.org" _
    ⟨.of_snapshot rfl, .of_snapshot rfl, by decide, by decide, by decide, by decide⟩ rfl rfl rfl
  have hbob := hspeaks.listed (storedReview.component 1, 1) (by decide) "bob@b.org" (by decide)
    (by decide)
  cases hbob

theorem reply_speaks_for_sender_review :
    ∃ snapshots itipSnapshots result,
      (SpeaksForSender .plain ["me@a.org"] storedReview
        (MergeResult.merged .plain storedReview result)
          "eve@b.org" ↔
        StatesOthersAsStored .plain ["me@a.org"] storedReview snapshots itipSnapshots
          "eve@b.org") ∧
      ¬ SpeaksForSender .plain ["me@a.org"] storedReview
        (MergeResult.merged .plain storedReview result) "eve@b.org" := by
  have hreadings : Readings .plain ["me@a.org"] storedReview (delegatingReply .accepted) _ _ :=
    ⟨.of_snapshot rfl, .of_snapshot rfl, by decide, by decide, by decide, by decide⟩
  refine ⟨_, _, _, reply_speaks_for_sender_iff Calcard.plain_laws hreadings {} rfl rfl rfl,
    fun hspeaks => ?_⟩
  have hbob := hspeaks.listed (storedReview.component 1, 1) (by decide) "bob@b.org" (by decide)
    (by decide)
  cases hbob

end MailServer.Scheduling
