import ChunkedFile.Json.Printer
import ChunkedFile.Proofs.Json.Literals

/-!
# Documents are read as they are written

A document that is put together from texts, counts and truth values is written without blanks, so
each part of it is followed by what ends it. With as much fuel as there are characters the reader
comes to the end of every part and finds it as it was.
-/

namespace ChunkedFile.Json

/-- A document that is put together from texts, counts and truth values. -/
inductive Plain : Json → Prop
  | null : Plain .null
  | bool (value : Bool) : Plain (.bool value)
  | ofNat (n : Nat) : Plain (ofNat n)
  | ofString (text : String) : Plain (ofString text)
  | array (items : List Json) (h : ∀ item ∈ items, Plain item) : Plain (.array items)
  | record (members : List (String × Json)) (h : ∀ member ∈ members, Plain member.2) :
      Plain (record members)

variable {json : Json} {rest : List Char} {fuel : Nat}

/-- The text begins with what begins a document: neither a blank nor the end of an array. -/
def BeginsValue (cs : List Char) : Prop :=
  ∃ c tail, cs = c :: tail ∧ isSpace c = false ∧ c ≠ ']'

/-- What does not begin with white space is not shortened. -/
theorem skipSpace_cons {c : Char} (h : isSpace c = false) (cs : List Char) :
    skipSpace (c :: cs) = c :: cs :=
  List.dropWhile_cons_of_neg (by simp [h])

/-- No white space is skipped before a value. -/
theorem BeginsValue.skipSpace_append (h : BeginsValue cs) (rest : List Char) :
    skipSpace (cs ++ rest) = cs ++ rest := by
  obtain ⟨c, tail, rfl, hspace, -⟩ := h
  exact skipSpace_cons hspace _

/-- The text of a plain value begins like a value. -/
theorem Plain.begins (h : json.Plain) : BeginsValue json.render := by
  cases h with
  | null | ofString => exact ⟨_, _, rfl, rfl, by decide⟩
  | bool value => cases value <;> exact ⟨_, _, rfl, rfl, by decide⟩
  | ofNat n =>
    obtain ⟨c, cs, hfront, hdigit⟩ := Text.exists_toDigits_eq_cons n
    have hne := Text.ne_of_isDigit hdigit
    refine ⟨c, cs, hfront, ?_, hne ']' rfl⟩
    simp [isSpace, hne ' ' rfl, hne '\n' rfl, hne '\t' rfl, hne '\r' rfl]
  | array items => cases items <;> exact ⟨_, _, rfl, rfl, by decide⟩
  | record members => cases members <;> exact ⟨_, _, rfl, rfl, by decide⟩

/-- A number is read back where no digit follows it. -/
theorem value?_ofNat (n : Nat) (hrest : EndsNumber rest) :
    value? (fuel + 1) (render (ofNat n) ++ rest) = some (ofNat n, rest) := by
  obtain ⟨c, cs, hfront, hdigit⟩ := Text.exists_toDigits_eq_cons n
  have hne := Text.ne_of_isDigit hdigit
  have hnumber := numberLiteral?_toDigits n hrest
  rw [ofNat, render]
  rw [hfront, List.cons_append] at hnumber ⊢
  simp [value?, hnumber, hne 'n' rfl, hne 't' rfl, hne 'f' rfl, hne '"' rfl, hne '[' rfl,
    hne '\x7b' rfl]

/-- A member as it is written. -/
def written (member : String × Json) : List Char × Json := (escape member.1.toList, member.2)

/-- With this fuel documents are read. -/
def ReadsValues (fuel : Nat) : Prop :=
  ∀ json rest, Plain json → json.render.length ≤ fuel → EndsNumber rest →
    value? fuel (json.render ++ rest) = some (json, rest)

/-- With this fuel the items of an array are read. -/
def ReadsItems (fuel : Nat) : Prop :=
  ∀ item items rest, Plain item → (∀ other ∈ items, Plain other) →
    item.render.length + (renderItems items).length ≤ fuel →
      items? fuel (item.render ++ (renderItems items ++ rest)) = some (item :: items, rest)

/-- With this fuel the members of a record are read. -/
def ReadsMembers (fuel : Nat) : Prop :=
  ∀ (member : String × Json) (members : List (String × Json)) rest,
    Plain member.2 → (∀ other ∈ members, Plain other.2) →
    (renderMember (written member)).length + (renderMembers (members.map written)).length ≤ fuel →
      members? fuel
          (renderMember (written member) ++ (renderMembers (members.map written) ++ rest)) =
        some (written member :: members.map written, rest)

/-- With one more unit of fuel the items of an array are read back, if the first value and the
others are. -/
theorem readsItems_succ (hvalues : ReadsValues fuel) (hitems : ReadsItems fuel) :
    ReadsItems (fuel + 1) := by
  intro item items rest hitem hothers hlength
  cases items with
  | nil =>
    rw [renderItems, List.length_singleton] at hlength
    have hread := hvalues item (']' :: rest) hitem (by omega) (by simp [EndsNumber])
    rw [renderItems, List.singleton_append, items?, hread]
    rfl
  | cons next items =>
    rw [List.forall_mem_cons] at hothers
    rw [renderItems, List.cons_append, List.length_cons, List.length_append] at hlength
    have hread := hvalues item (',' :: (next.render ++ (renderItems items ++ rest))) hitem
      (by omega) (by simp [EndsNumber])
    have hlater := hitems next items rest hothers.1 hothers.2 (by omega)
    rw [renderItems, List.cons_append, List.cons_append, List.append_assoc, items?, hread]
    simp only [skipSpace_cons (show isSpace ',' = false from rfl),
      hothers.1.begins.skipSpace_append, hlater, Option.map_some]

/-- With one more unit of fuel the members of a record are read back, if the first value and the
others are. -/
theorem readsMembers_succ (hvalues : ReadsValues fuel) (hmembers : ReadsMembers fuel) :
    ReadsMembers (fuel + 1) := by
  intro member members rest hmember hothers hlength
  have hname (member : String × Json) (after : List Char) : renderMember (written member) ++ after =
      '"' :: (escape member.1.toList ++ '"' :: ':' :: (member.2.render ++ after)) := by
    simp [renderMember, written]
  have hshorter : member.2.render.length < (renderMember (written member)).length := by
    rw [← List.append_nil (renderMember _), hname, List.length_cons, List.length_append,
      List.length_cons, List.length_cons, List.append_nil]
    omega
  have hcolon (after : List Char) : skipSpace (':' :: after) = ':' :: after :=
    skipSpace_cons rfl after
  cases members with
  | nil =>
    rw [List.map_nil, renderMembers, List.length_singleton] at hlength
    have hread := hvalues member.2 ('\x7d' :: rest) hmember (by omega) (by simp [EndsNumber])
    rw [List.map_nil, renderMembers, hname, List.singleton_append, members?, stringLiteral?_escape]
    simp only [hcolon, hmember.begins.skipSpace_append, hread,
      skipSpace_cons (show isSpace '\x7d' = false from rfl)]
    rfl
  | cons next members =>
    rw [List.forall_mem_cons] at hothers
    rw [List.map_cons, renderMembers, List.cons_append, List.length_cons, List.length_append]
      at hlength
    have hread := hvalues member.2 (',' :: (renderMember (written next) ++
      (renderMembers (members.map written) ++ rest))) hmember (by omega) (by simp [EndsNumber])
    have hlater := hmembers next members rest hothers.1 hothers.2 (by omega)
    have hskip : skipSpace (renderMember (written next) ++
        (renderMembers (members.map written) ++ rest)) =
          renderMember (written next) ++ (renderMembers (members.map written) ++ rest) := by
      rw [hname]
      exact skipSpace_cons rfl _
    rw [List.map_cons, renderMembers, hname, List.cons_append, List.cons_append,
      List.append_assoc, members?, stringLiteral?_escape]
    simp only [hcolon, hmember.begins.skipSpace_append, hread,
      skipSpace_cons (show isSpace ',' = false from rfl), hskip, hlater, Option.map_some]
    rfl

/-- With one more unit of fuel a value is read back, if the items and the members in it are. -/
theorem readsValues_succ (hitems : ReadsItems fuel) (hmembers : ReadsMembers fuel) :
    ReadsValues (fuel + 1) := by
  intro json rest hplain hlength hrest
  cases hplain with
  | null => rfl
  | bool value => cases value <;> rfl
  | ofNat n => exact value?_ofNat n hrest
  | ofString text =>
    rw [ofString, render, List.cons_append, List.cons_append, List.append_assoc,
      List.singleton_append]
    simp [value?, stringLiteral?_escape]
  | array items h =>
    cases items with
    | nil => rfl
    | cons item items =>
      rw [List.forall_mem_cons] at h
      rw [render, List.cons_append, List.length_cons, List.length_append] at hlength
      have hread := hitems item items rest h.1 h.2 (by omega)
      obtain ⟨c, tail, hfront, hspace, hclose⟩ := h.1.begins
      rw [render, List.cons_append, List.cons_append, List.append_assoc]
      rw [hfront, List.cons_append] at hread ⊢
      simp [value?, skipSpace_cons hspace, hread, hclose]
  | record members h =>
    cases members with
    | nil => rfl
    | cons member members =>
      rw [List.forall_mem_cons] at h
      have htext : render (record (member :: members)) =
          '\x7b' :: (renderMember (written member) ++ renderMembers (members.map written)) := rfl
      rw [htext, List.length_cons, List.length_append] at hlength
      have hread := hmembers member members rest h.1 h.2 (by omega)
      obtain ⟨tail, hfront⟩ : ∃ tail, renderMember (written member) = '"' :: tail := ⟨_, rfl⟩
      rw [htext, List.cons_append, List.append_assoc]
      rw [hfront, List.cons_append] at hread ⊢
      simp [value?, skipSpace_cons (show isSpace '"' = false from rfl), hread]
      rfl

/-- With as much fuel as there are characters every document is read. -/
theorem readsValues (fuel : Nat) : ReadsValues fuel ∧ ReadsItems fuel ∧ ReadsMembers fuel := by
  induction fuel with
  | zero =>
    refine ⟨?_, ?_, ?_⟩
    · intro json rest hplain hlength
      obtain ⟨c, tail, hfront, -⟩ := hplain.begins
      simp [hfront] at hlength
    · intro item items rest hplain _ hlength
      obtain ⟨c, tail, hfront, -⟩ := hplain.begins
      simp [hfront] at hlength
    · intro member members rest _ _ hlength
      simp [renderMember, written] at hlength
  | succ fuel ih =>
    obtain ⟨hvalues, hitems, hmembers⟩ := ih
    exact ⟨readsValues_succ hitems hmembers, readsItems_succ hvalues hitems,
      readsMembers_succ hvalues hmembers⟩

/-- What is written for a document is read as that document. -/
theorem parse?_text (h : json.Plain) : parse? json.text = some json := by
  have hskip := h.begins.skipSpace_append []
  have hread := (readsValues (json.render.length + 1)).1 json [] h (by omega) (by simp [EndsNumber])
  rw [List.append_nil] at hskip hread
  simp only [parse?, text, String.toList_ofList, hskip, hread]
  rfl

end ChunkedFile.Json
