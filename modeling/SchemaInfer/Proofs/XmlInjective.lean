import SchemaInfer.Proofs.XmlMarkup

/-!
# The text of a tree determines the tree

Two trees with the same text have the same tokens, since reading a text has one result. The tokens of a
tree can be told from what follows them: a tag is opened or stands alone in each of its children, and is
closed behind the last. So trees with the same tokens are equal, as long as it shows in the tag whether an
element holds text: one that holds no elements could else be taken for one that holds a line end.
-/

namespace SchemaInfer.Xml

variable {leaf : String}

theorem escape_injective {content content' : String} (h : escape content = escape content') :
    content = content' := by
  have hdecoded := congrArg (fun text => decode text.toList) h
  simp only [decode_escape, Option.some.injEq] at hdecoded
  exact String.toList_inj.mp hdecoded

theorem written_injective {tag tag' : String} {attributes attributes' : List (String × String)}
    (h : written tag attributes = written tag' attributes') :
    tag = tag' ∧ attributes = attributes' := by
  obtain ⟨htag, hattributes⟩ := Tag.mk.inj h
  refine ⟨String.toList_inj.mp htag, ?_⟩
  apply List.map_injective_iff.mpr _ hattributes
  rintro ⟨name, value⟩ ⟨name', value'⟩ hpair
  obtain ⟨hname, hvalue⟩ := Prod.mk.inj hpair
  rw [String.toList_inj.mp hname, escape_injective (String.toList_inj.mp hvalue)]

mutual

/-- A tree and what follows it can be told apart. -/
theorem tokens_injective {rest rest' : List Token} (depth : Nat) : ∀ (xml other : Xml),
    xml.Regular leaf → other.Regular leaf →
      xml.tokens depth ++ rest = other.tokens depth ++ rest' → xml = other ∧ rest = rest'
  | empty tag attributes, empty tag' attributes', _, _, h => by
    simp only [tokens, List.cons_append, List.nil_append, List.cons.injEq, Token.single.injEq,
      true_and] at h
    obtain ⟨rfl, rfl⟩ := written_injective h.1
    exact ⟨rfl, h.2⟩
  | empty _ _, text _ _ _, _, _, h => by simp [tokens] at h
  | empty _ _, node _ _ _, _, _, h => by simp [tokens] at h
  | text _ _ _, empty _ _, _, _, h => by simp [tokens] at h
  | text tag attributes content, text tag' attributes' content', _, _, h => by
    simp only [tokens, List.cons_append, List.nil_append, List.cons.injEq, Token.opening.injEq,
      Token.text.injEq, true_and] at h
    obtain ⟨hwritten, hcontent, _, hrest⟩ := h
    obtain ⟨rfl, rfl⟩ := written_injective hwritten
    rw [escape_injective (String.toList_inj.mp hcontent)]
    exact ⟨rfl, hrest⟩
  | text tag attributes _, node tag' attributes' _, hxml, hother, h => by
    simp only [tokens, List.cons_append, List.cons.injEq, Token.opening.injEq, true_and] at h
    obtain ⟨rfl, _⟩ := written_injective h.1
    exact absurd hxml.2 hother.2.1
  | node _ _ _, empty _ _, _, _, h => by simp [tokens] at h
  | node tag attributes _, text tag' attributes' _, hxml, hother, h => by
    simp only [tokens, List.cons_append, List.cons.injEq, Token.opening.injEq, true_and] at h
    obtain ⟨rfl, _⟩ := written_injective h.1
    exact absurd hother.2 hxml.2.1
  | node tag attributes children, node tag' attributes' children', hxml, hother, h => by
    simp only [tokens, List.cons_append, List.append_assoc, List.nil_append, List.cons.injEq,
      Token.opening.injEq, true_and] at h
    obtain ⟨rfl, rfl⟩ := written_injective h.1
    obtain ⟨rfl, hrest⟩ :=
      tokensOfAll_injective (depth + 1) children children' hxml.2.2 hother.2.2 h.2
    exact ⟨rfl, hrest⟩
termination_by structural xml => xml

theorem tokensOfAll_injective {rest rest' : List Token} {blanks blanks' name name' : List Char}
    (depth : Nat) : ∀ (children others : List Xml), RegularAll leaf children → RegularAll leaf others →
      tokensOfAll depth children ++ .text blanks :: .closing name :: rest =
        tokensOfAll depth others ++ .text blanks' :: .closing name' :: rest' →
      children = others ∧ rest = rest'
  | [], [], _, _, h => by
    simp only [tokensOfAll, List.nil_append, List.cons.injEq] at h
    exact ⟨rfl, h.2.2⟩
  | [], other :: others, _, _, h => by cases other <;> simp [tokensOfAll, tokens] at h
  | child :: children, [], _, _, h => by cases child <;> simp [tokensOfAll, tokens] at h
  | child :: children, other :: others, hchildren, hothers, h => by
    rw [tokensOfAll, tokensOfAll, List.append_assoc, List.append_assoc] at h
    obtain ⟨rfl, hbehind⟩ := tokens_injective depth child other hchildren.1 hothers.1 h
    obtain ⟨rfl, hrest⟩ :=
      tokensOfAll_injective depth children others hchildren.2 hothers.2 hbehind
    exact ⟨rfl, hrest⟩
termination_by structural children => children

end

/-- Trees with the same text are equal. -/
theorem document_injective {root other : Xml} (hroot : root.Regular leaf) (hother : other.Regular leaf)
    (h : root.document = other.document) : root = other := by
  obtain ⟨rest, htext, hscan⟩ := scan_document hroot
  obtain ⟨rest', htext', hscan'⟩ := scan_document hother
  rw [h, htext'] at htext
  obtain rfl := List.append_cancel_left htext
  exact (tokens_injective 0 root other hroot hother (Option.some.inj (hscan.symm.trans hscan'))).1

end SchemaInfer.Xml
