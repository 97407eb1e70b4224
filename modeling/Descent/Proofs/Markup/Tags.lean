/-
  Descent.Proofs.Markup.Tags

  What the grammars of tags decide.  Inside a tag the parser is greedy: a name takes all letters
  and digits there are, and attributes are taken as long as one follows.  A tag ends with `/>` or
  with `>`, and neither a name nor an attribute goes on with these, so in a whole tag nothing is
  left of that greed.
-/
import Descent.Markup.Language
import Descent.Proofs.Markup.Denotes

namespace Descent.Markup

open Lexical (IsName)

variable {N : Type → Type} {attempts : Nat} {call : {α : Type} → N α → Parser α} {inp : Input}

/-! ## Attributes -/

theorem attributePair_decides (ha : inp.size < attempts) :
    ((attributePair : Grammar N (String × String)).eval attempts call).Decides inp
      (fun a cs => IsName a.1 ∧ '"' ∉ a.2.toList ∧
        inp.chars = a.1.toList ++ ['=', '"'] ++ a.2.toList ++ ['"'] ++ cs) fun _ => True := by
  have hkey : ((Lexical.identifier.thenSkip (.char '=') : Grammar N String).eval attempts
      call).Decides inp (fun key cs => ∃ c mid, (IsName key ∧ inp.chars = key.toList ++ mid ∧
        StopsAt Char.isAlphanum mid) ∧ c = '=' ∧ mid = '=' :: cs) fun _ => True :=
    Grammar.thenSkip_decides (U := fun ds c cs => c = '=' ∧ ds = '=' :: cs)
      (Lexical.identifier_decides ha).weaken fun key mid _ => (Grammar.char_decides '=').weaken
  refine (Grammar.both_decides
    (U := fun ds (s : String) cs => '"' ∉ s.toList ∧ ds = '"' :: (s.toList ++ '"' :: cs)) hkey
    fun key mid hmid => ?_).congr ?_ fun _ h => h
  · obtain ⟨_, _, ⟨-, hinp, -⟩, -, rfl⟩ := hmid
    have hsize : mid.size ≤ inp.size :=
      Input.size_le_of_append (w := key.toList ++ ['=']) (by rw [hinp, List.append_assoc]; rfl)
    exact Lexical.quotedText_decides (by omega)
  intro a cs
  refine ⟨fun h => ?_, fun h => ?_⟩
  · obtain ⟨hkey, hvalue, hinp⟩ := h
    refine ⟨'"' :: (a.2.toList ++ '"' :: cs), ⟨'=', '=' :: '"' :: (a.2.toList ++ '"' :: cs),
      ⟨hkey, by simp [hinp], stopsAt_cons.2 (by decide)⟩, rfl, rfl⟩, hvalue, rfl⟩
  · obtain ⟨mid, ⟨c, mid', ⟨hkey, hinp, -⟩, -, rfl⟩, hvalue, rfl⟩ := h
    exact ⟨hkey, hvalue, by simp [hinp]⟩

/-- An attribute with the blanks in front of it.  The blanks end where the key begins. -/
theorem attribute_decides (ha : inp.size < attempts) :
    ((Lexical.someBlanks.skipThen attributePair : Grammar N (String × String)).eval
      attempts call).Decides inp (Begins AttributeText inp.chars) fun _ => True := by
  refine (Grammar.skipThen_decides (U := fun ds (a : String × String) cs => IsName a.1 ∧
      '"' ∉ a.2.toList ∧ ds = a.1.toList ++ ['=', '"'] ++ a.2.toList ++ ['"'] ++ cs)
    (Lexical.someBlanks_decides ha).weaken fun blanks mid hmid => ?_).congr ?_ fun _ h => h
  · obtain ⟨-, hinp, -, -⟩ := hmid
    have hsize : mid.size ≤ inp.size := Input.size_le_of_append hinp
    exact attributePair_decides (by omega)
  intro a cs
  refine ⟨fun h => ?_, fun h => ?_⟩
  · obtain ⟨w, @⟨blanks, key, value, hne, hblanks, hkey, hvalue⟩, hinp⟩ := h
    refine ⟨blanks, key.toList ++ ['=', '"'] ++ value.toList ++ ['"'] ++ cs,
      ⟨hne, by simp [hinp], hblanks, ?_⟩, hkey, hvalue, rfl⟩
    cases hk : key.toList with
    | nil => exact absurd hk hkey.1
    | cons c ds =>
      have hc : c.isAlphanum = true := hkey.2 c (by simp [hk])
      exact stopsAt_cons.2 (Text.isBlank_eq_false_of_isAlphanum hc)
  · obtain ⟨blanks, mid, ⟨hne, hinp, hblanks, -⟩, hkey, hvalue, rfl⟩ := h
    exact ⟨_, .mk hne hblanks hkey hvalue, by simp [hinp]⟩

/-- Attributes are taken until none follows. -/
theorem attributes_decides (ha : inp.size < attempts) :
    ((attributes : Grammar N (List (String × String))).eval attempts call).Decides inp
      (fun as cs => Begins (Texts AttributeText) inp.chars as cs ∧
        ∀ a ds, ¬ Begins AttributeText cs a ds) fun _ => True := by
  have hconsuming : Consuming (Begins AttributeText) := by
    apply consuming_begins
    intro w a hw
    obtain ⟨c, cs, rfl, -⟩ := hw.head
    exact List.cons_ne_nil c cs
  refine (Grammar.repeated_decides (b := Bounds.free) (G := fun _ _ => True) hconsuming ha
    (fun inp' hle => attribute_decides (by omega)) trivial fun _ _ => trivial).congr ?_ fun _ h => h
  intro as cs
  rw [gathered_begins_iff (b := Bounds.free) rfl]
  exact ⟨fun h => ⟨h, Nat.zero_le _⟩, fun h => h.1⟩

/-! ## Tags -/

/-- The beginning of a tag, which goes on for as long as it can. -/
theorem elementStart_decides (ha : inp.size < attempts) :
    ((elementStart : Grammar N (String × List (String × String))).eval attempts call).Decides inp
      (fun tag cs => ∃ w, IsName tag.1 ∧ Texts AttributeText w tag.2 ∧
        inp.chars = ['<'] ++ tag.1.toList ++ w ++ cs ∧ StopsAt Char.isAlphanum (w ++ cs) ∧
        ∀ a ds, ¬ Begins AttributeText cs a ds) fun _ => True := by
  have htag (mid : Input) (hmid : mid.size < attempts) :
      ((Lexical.identifier.both attributes : Grammar N (String × List (String × String))).eval
        attempts call).Decides mid
        (fun tag cs => ∃ ds, (IsName tag.1 ∧ mid.chars = tag.1.toList ++ ds ∧
          StopsAt Char.isAlphanum ds) ∧ Begins (Texts AttributeText) ds tag.2 cs ∧
          ∀ a ds, ¬ Begins AttributeText cs a ds) fun _ => True := by
    refine Grammar.both_decides (U := fun ds as cs => Begins (Texts AttributeText) ds as cs ∧
      ∀ a ds, ¬ Begins AttributeText cs a ds) (Lexical.identifier_decides hmid).weaken
      fun name mid' hname => ?_
    have hsize : mid'.size ≤ mid.size := Input.size_le_of_append hname.2.1
    exact attributes_decides (by omega)
  refine (Grammar.skipThen_decides
    (U := fun cs (tag : String × List (String × String)) cs' => ∃ ds, (IsName tag.1 ∧
      cs = tag.1.toList ++ ds ∧ StopsAt Char.isAlphanum ds) ∧
      Begins (Texts AttributeText) ds tag.2 cs' ∧ ∀ a ds, ¬ Begins AttributeText cs' a ds)
    (Grammar.char_decides '<').weaken fun c mid hc => htag mid ?_).congr ?_ fun _ h => h
  · have hsize : mid.size ≤ inp.size := Input.size_le_of_append (w := ['<']) hc.2
    omega
  intro tag cs
  refine ⟨fun h => ?_, fun h => ?_⟩
  · obtain ⟨w, hname, hw, hinp, hstop, hnone⟩ := h
    exact ⟨'<', tag.1.toList ++ (w ++ cs), ⟨rfl, by simp [hinp]⟩, w ++ cs, ⟨hname, rfl, hstop⟩,
      ⟨w, hw, rfl⟩, hnone⟩
  · obtain ⟨c, mid, ⟨-, hinp⟩, ds, ⟨hname, rfl, hstop⟩, ⟨w, hw, rfl⟩, hnone⟩ := h
    exact ⟨w, hname, hw, by simp [hinp], hstop, hnone⟩

/-- In front of a character that neither names nor attributes go on with, the beginning of a tag
    is any text for one. -/
theorem elementStart_iff {cs ds : List Char} {c : Char} (hc : c.isAlphanum = false)
    (hb : Text.isBlank c = false) (tag : String × List (String × String)) :
    (∃ w, IsName tag.1 ∧ Texts AttributeText w tag.2 ∧
      cs = ['<'] ++ tag.1.toList ++ w ++ c :: ds ∧ StopsAt Char.isAlphanum (w ++ c :: ds) ∧
      ∀ a es, ¬ Begins AttributeText (c :: ds) a es) ↔ Begins TagText cs tag (c :: ds) := by
  refine ⟨fun h => ?_, fun h => ?_⟩
  · obtain ⟨w, hname, hw, hcs, -, -⟩ := h
    exact ⟨_, .mk hname hw, hcs⟩
  · obtain ⟨t, ht, rfl⟩ := h
    cases ht with
    | @mk name w attributes hname hw =>
      exact ⟨w, hname, hw, rfl, attributes_stopsAt hw hc ds, not_begins_attribute hb⟩

/-- A tag that closes itself. -/
theorem singleElement_decides (ha : inp.size < attempts) :
    ((singleElement : Grammar N Element).eval attempts call).Decides inp
      (fun e cs => ∃ tag, e = ⟨tag.1, tag.2, []⟩ ∧ Begins TagText inp.chars tag ('/' :: '>' :: cs))
      fun _ => True := by
  refine (Grammar.map_decides _ (Grammar.thenSkip_decides
    (U := fun ds s cs => s = "/>" ∧ ds = '/' :: '>' :: cs) (elementStart_decides ha)
    fun tag mid _ => (Grammar.literal_decides "/>").weaken)).congr ?_ fun _ h => h
  intro e cs
  refine ⟨fun h => ?_, fun h => ?_⟩
  · obtain ⟨tag, rfl, htag⟩ := h
    exact ⟨tag, ⟨"/>", '/' :: '>' :: cs, (elementStart_iff (by decide) (by decide) tag).2 htag,
      rfl, rfl⟩, rfl⟩
  · obtain ⟨tag, ⟨s, mid, htag, -, rfl⟩, rfl⟩ := h
    exact ⟨tag, rfl, (elementStart_iff (by decide) (by decide) tag).1 htag⟩

/-- A tag that opens an element. -/
theorem openElement_decides (ha : inp.size < attempts) :
    ((openElement : Grammar N (String × List (String × String))).eval attempts call).Decides inp
      (fun tag cs => Begins TagText inp.chars tag ('>' :: cs)) fun _ => True := by
  refine (Grammar.thenSkip_decides (U := fun ds c cs => c = '>' ∧ ds = '>' :: cs)
    (elementStart_decides ha) fun tag mid _ => (Grammar.char_decides '>').weaken).congr ?_
    fun _ h => h
  intro tag cs
  refine ⟨fun h => ?_, fun h => ?_⟩
  · exact ⟨'>', '>' :: cs, (elementStart_iff (by decide) (by decide) tag).2 h, rfl, rfl⟩
  · obtain ⟨c, mid, htag, -, rfl⟩ := h
    exact (elementStart_iff (by decide) (by decide) tag).1 htag

/-- A tag ends in one way only. -/
theorem tag_end_unique {cs ds es : List Char} {tag tag' : String × List (String × String)}
    (hsingle : Begins TagText cs tag ('/' :: ds)) : ¬ Begins TagText cs tag' ('>' :: es) := by
  intro hopen
  -- Both are where the parser finds the beginning of the tag to end.
  have hstart : ((elementStart : Grammar (fun _ => Empty) _).eval _ fun n => n.elim).Decides
      (.ofChars cs) _ _ := elementStart_decides (Nat.lt_succ_self _)
  have h := hstart.unique ((elementStart_iff (by decide) (by decide) tag).2 hsingle)
    ((elementStart_iff (by decide) (by decide) tag').2 hopen)
  exact absurd (List.cons.inj h.2).1 (by decide)

/-- The tag that closes an element of the given name. -/
theorem closeElement_decides (name : String) (ha : inp.size < attempts) :
    ((closeElement name : Grammar N String).eval attempts call).Decides inp
      (fun s cs => s = name ∧ IsName name ∧ inp.chars = ['<', '/'] ++ name.toList ++ '>' :: cs)
      fun _ => True := by
  have hname : (((Grammar.literal "</").skipThen Lexical.identifier : Grammar N String).eval
      attempts call).Decides inp (fun s cs => ∃ l mid, (l = "</" ∧ inp.chars = "</".toList ++ mid) ∧
        IsName s ∧ mid = s.toList ++ cs ∧ StopsAt Char.isAlphanum cs) fun _ => True := by
    refine Grammar.skipThen_decides
      (U := fun ds s cs => IsName s ∧ ds = s.toList ++ cs ∧ StopsAt Char.isAlphanum cs)
      (Grammar.literal_decides "</").weaken fun l mid hl => ?_
    have hsize : mid.size ≤ inp.size := Input.size_le_of_append hl.2
    exact (Lexical.identifier_decides (by omega)).weaken
  have htag := Grammar.thenSkip_decides (U := fun ds c cs => c = '>' ∧ ds = '>' :: cs) hname
    fun s mid _ => (Grammar.char_decides '>').weaken
  refine (Grammar.filter_decides (· = name) htag trivial).congr ?_ fun _ h => h
  intro s cs
  refine ⟨fun h => ?_, fun h => ?_⟩
  · obtain ⟨rfl, hs, hinp⟩ := h
    exact ⟨⟨'>', '>' :: cs, ⟨"</", s.toList ++ '>' :: cs, ⟨rfl, by simp [hinp]⟩, hs, rfl,
      stopsAt_cons.2 (by decide)⟩, rfl, rfl⟩, decide_eq_true rfl⟩
  · obtain ⟨⟨c, mid, ⟨s', mid', ⟨-, hinp⟩, hs, rfl, -⟩, -, rfl⟩, hkeep⟩ := h
    obtain rfl : s = name := of_decide_eq_true hkeep
    exact ⟨rfl, hs, by simp [hinp]⟩

/-- What is left behind a closing tag is an end of the input. -/
theorem closeTag_suffix {name : String} {inp cs : List Char}
    (h : inp = ['<', '/'] ++ name.toList ++ '>' :: cs) : cs <:+ inp :=
  ⟨['<', '/'] ++ name.toList ++ ['>'], by rw [h, List.append_assoc]; rfl⟩

end Descent.Markup
