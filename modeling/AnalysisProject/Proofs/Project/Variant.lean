import AnalysisProject.Proofs.Markup.Tolerance
import AnalysisProject.Proofs.Project.RoundTrip
import Mathlib.Data.List.Forall2

namespace AnalysisProject

open CodeUnit Markup Layout

namespace Markup

inductive Shown : Node → Node → Prop
  | leaf {name s : Text} {attributes : Attributes} {texts : List Node} :
      (∀ child ∈ texts, child.isElement = false) →
        (Node.element name attributes texts).content = s →
      Shown (leaf name attributes s) (.element name attributes texts)
  | container {name : Text} {attributes : Attributes} {children inner : List Node} :
      children ≠ [] → Shows children inner →
      Shown (.element name attributes children) (.element name attributes inner)

structure Node.Alike (node node' : Node) : Prop where
  attributes : ∀ name, node'.attribute? name = node.attribute? name
  content : node'.content = node.content

theorem Shows.isElement {nodes more : List Node} (h : Shows nodes more) :
    ∀ node ∈ nodes, node.isElement = true := by
  induction h with
  | nil => exact fun _ hm ↦ absurd hm List.not_mem_nil
  | text _ ih => exact ih
  | leaf _ _ _ ih => exact List.forall_mem_cons.mpr ⟨rfl, ih⟩
  | container _ _ _ _ ih => exact List.forall_mem_cons.mpr ⟨rfl, ih⟩

theorem Shows.forall₂ {nodes more : List Node} (h : Shows nodes more) {height : Nat}
    (hs : ∀ node ∈ nodes, node.IsSound height) :
    List.Forall₂ Shown nodes (more.filter fun child ↦ child.name?.isSome) := by
  have hname {name : Text} {attributes : Attributes} {children : List Node}
      (hsound : (Node.element name attributes children).IsSound height) (inner : List Node) :
      (Node.element name attributes inner).name?.isSome = true := by
    rw [Node.name?_element hsound.isPlainTag.name_isPlainName]
    rfl
  induction h with
  | nil => exact .nil
  | text _ ih => exact ih hs
  | leaf htexts hcontent _ ih =>
    obtain ⟨hsound, hs⟩ := List.forall_mem_cons.mp hs
    rw [List.filter_cons, if_pos (hname hsound _)]
    exact .cons (.leaf htexts hcontent) (ih hs)
  | container hne hinner _ _ ih =>
    obtain ⟨hsound, hs⟩ := List.forall_mem_cons.mp hs
    rw [List.filter_cons, if_pos (hname hsound _)]
    exact .cons (.container hne hinner) (ih hs)

namespace Shown

variable {node node' : Node} (h : Shown node node')

include h

theorem name?_eq : node'.name? = node.name? := by
  cases h <;> rfl

theorem attribute?_eq (name : Text) : node'.attribute? name = node.attribute? name := by
  cases h <;> rfl

theorem alike (hs : node.IsSound 0) : node.Alike node' := by
  refine ⟨h.attribute?_eq, ?_⟩
  cases h with
  | leaf htexts hcontent => rw [Node.content_leaf, hcontent]
  | container hne hinner =>
    obtain ⟨below, hbelow, -⟩ := hs.exists_below hne hinner.isElement
    cases hbelow

theorem elements {height : Nat} (hs : node.IsSound (height + 1)) :
    (∀ child ∈ node.elements, child.IsSound height) ∧
      List.Forall₂ Shown node.elements node'.elements := by
  cases h with
  | @leaf name s attributes texts htexts _ =>
    have hnil {children : List Node} (hc : ∀ child ∈ children, child.isElement = false) :
        (Node.element name attributes children).elements = [] := by
      refine List.filter_eq_nil_iff.mpr fun child hm ↦ ?_
      cases child with
      | text _ => exact Bool.false_ne_true
      | element _ _ _ => cases hc _ hm
    have hleaf : (AnalysisProject.leaf name attributes s).elements = [] := by
      refine hnil fun child hm ↦ ?_
      split at hm
      · cases hm
      · rw [List.mem_singleton.mp hm]
        rfl
    rw [hleaf, hnil htexts]
    exact ⟨fun _ hm ↦ absurd hm List.not_mem_nil, .nil⟩
  | @container name attributes children inner hne hinner =>
    obtain ⟨below, hbelow, hchildren⟩ := hs.exists_below hne hinner.isElement
    cases hbelow
    have hall : (Node.element name attributes children).elements = children :=
      List.filter_eq_self.mpr fun child hm ↦ (hchildren child hm).isSome_name?
    rw [hall]
    exact ⟨hchildren, hinner.forall₂ hchildren⟩

theorem items (hs : node.IsSound 1) (name : Text) :
    List.Forall₂ Node.Alike (items name node) (items name node') := by
  obtain ⟨hsound, hshown⟩ := h.elements hs
  have halike : List.Forall₂ (fun child child' ↦ child.Alike child' ∧ child'.name? = child.name?)
      node.elements node'.elements := by
    generalize node.elements = nodes, node'.elements = nodes' at hsound hshown
    induction hshown with
    | nil => exact .nil
    | cons hchild _ ih =>
      obtain ⟨hs, hsound⟩ := List.forall_mem_cons.mp hsound
      exact .cons ⟨hchild.alike hs, hchild.name?_eq⟩ (ih hsound)
  refine List.Forall₂.imp (fun _ _ ↦ And.left) (List.rel_filter (fun child child' hc ↦ ?_) halike)
  simp only [hc.2]

end Shown

theorem Node.map_eq_of_alike {α : Type} {f : Node → α}
    (hf : ∀ node node', Node.Alike node node' → f node' = f node) {nodes nodes' : List Node}
    (h : List.Forall₂ Node.Alike nodes nodes') : nodes'.map f = nodes.map f := by
  induction h with
  | nil => rfl
  | cons halike _ ih => rw [List.map_cons, List.map_cons, hf _ _ halike, ih]

end Markup

namespace Project

/-- An element that says something about a project: elements for one value hold no elements. -/
structure IsEntry (node : Node) : Prop where
  sound : node.IsSound 1
  scalar : ∀ s, node.name?.bind Role.ofName? = some (.scalar s) → node.IsSound 0

theorem takeScalar_alike {node node' : Node} (h : node.Alike node') (p : Project) (s : Scalar) :
    p.takeScalar node' s = p.takeScalar node s := by
  cases s <;> simp only [takeScalar, h.attributes, h.content]

theorem takeNode_shown {node node' : Node} (h : Shown node node') (hn : IsEntry node)
    (p : Project) :
    p.takeNode node' = p.takeNode node := by
  rw [takeNode, takeNode, h.name?_eq]
  cases hr : node.name?.bind Role.ofName? with
  | none => rfl
  | some role =>
    cases role with
    | scalar s => exact takeScalar_alike (h.alike (hn.scalar s hr)) p s
    | list e =>
      have hvalue : ∀ node node', Node.Alike node node' → e.value? node' = e.value? node := by
        intro node node' ha
        rw [ListEntry.value?, ListEntry.value?]
        split
        · exact ha.attributes _
        · rw [ha.content]
      have hvalues : e.values node' = e.values node := by
        have hmap := Node.map_eq_of_alike hvalue (h.items hn.sound e.item)
        have hfilter (items : List Node) :
            items.filterMap e.value? = (items.map e.value?).filterMap id := by
          rw [List.filterMap_map, Function.id_comp]
        rw [ListEntry.values, ListEntry.values, hfilter, hfilter, hmap]
      exact congrArg (fun values ↦ p.append values e.field) hvalues
    | suppressions =>
      have hmap := Node.map_eq_of_alike (f := Suppression.ofNode)
        (fun node node' ha ↦ by simp only [Suppression.ofNode, ha.attributes, ha.content])
        (h.items hn.sound Suppressions.item)
      exact congrArg (fun suppressions ↦ { p with suppressions := p.suppressions ++ suppressions })
        hmap
    | tools =>
      have hmap := Node.map_eq_of_alike (f := Node.content) (fun _ _ ha ↦ ha.content)
        (h.items hn.sound Tools.item)
      have hfold (items : List Node) :
          items.foldl (fun p item ↦ p.takeTool item.content) p =
            (items.map Node.content).foldl takeTool p :=
        List.foldl_map.symm
      exact (hfold _).trans ((congrArg (List.foldl takeTool p) hmap).trans (hfold _).symm)

theorem foldl_takeNode_shown {nodes nodes' : List Node} (h : List.Forall₂ Shown nodes nodes')
    (hn : ∀ node ∈ nodes, IsEntry node) (p : Project) : nodes'.foldl takeNode p =
      nodes.foldl takeNode p := by
  induction h generalizing p with
  | nil => rfl
  | cons hshown _ ih =>
    obtain ⟨hnode, hn⟩ := List.forall_mem_cons.mp hn
    rw [List.foldl_cons, List.foldl_cons, takeNode_shown hshown hnode, ih hn]


end Project

section OlderNames

def Layout.olderName (name : Text) : Text :=
  if name = (ListEntry.canonical .excludedPaths).container then
    ListEntry.ignored.container else name

def Markup.Node.older : Node → Node
  | text s => text s
  | element name attributes children => element (olderName name) attributes children

variable {node : Node}

theorem Layout.olderName_eq_or (name : Text) :
    olderName name = name ∨
      name = (ListEntry.canonical .excludedPaths).container ∧ olderName name =
        ListEntry.ignored.container := by
  rw [olderName]
  split
  · next h => exact .inr ⟨h, rfl⟩
  · exact .inl rfl

theorem Markup.IsPlainTag.olderName {name : Text} {attributes : Attributes}
    (h : IsPlainTag name attributes) :
    IsPlainTag (Layout.olderName name) attributes := by
  rcases olderName_eq_or name with he | ⟨-, he⟩
  · rwa [he]
  · rw [he]
    refine ⟨fun s hm ↦ ?_, h.nodup⟩
    rcases List.mem_cons.mp hm with rfl | hm
    · decide
    · exact h.names s (List.mem_cons_of_mem _ hm)

theorem Markup.Node.IsSound.older {height : Nat} (h : node.IsSound height) :
    node.older.IsSound height := by
  cases h with
  | empty ht => exact .empty ht.olderName
  | text ht hs => exact .text ht.olderName hs
  | container ht hne hc => exact .container ht.olderName hne hc

theorem Markup.Node.Avoids.older {c : CodeUnit} (h : node.Avoids c) : node.older.Avoids c := by
  cases h with
  | text hs => exact .text hs
  | element ha hc => exact .element ha hc

theorem Project.takeNode_older (h : node.IsSound 1) (p : Project) :
    p.takeNode node.older = p.takeNode node := by
  cases node with
  | text s => rfl
  | element name attributes children =>
    have ht := h.isPlainTag
    rcases olderName_eq_or name with he | ⟨hname, he⟩
    · rw [Node.older, he]
    · have hrole : (Node.element name attributes children).name?.bind Role.ofName? =
          some (.list (ListEntry.canonical .excludedPaths)) := by
        rw [Node.name?_element ht.name_isPlainName, hname]
        rfl
      have holder : (Node.element name attributes children).older.name?.bind Role.ofName? =
          some (.list ListEntry.ignored) := by
        rw [Node.older, he, Node.name?_element (by decide)]
        rfl
      rw [takeNode_of_role p hrole, takeNode_of_role p holder]
      rfl

theorem Project.IsEntry.older (h : IsEntry node) : IsEntry node.older := by
  refine ⟨h.sound.older, fun s hs ↦ ?_⟩
  cases node with
  | text s => cases hs
  | element name attributes children =>
    rcases olderName_eq_or name with he | ⟨-, he⟩
    · rw [Node.older, he] at hs ⊢
      exact h.scalar s hs
    · rw [Node.older, he, Node.name?_element (by decide)] at hs
      cases hs

end OlderNames

namespace Markup

theorem Node.avoids_mapTexts {c : CodeUnit} {f : Text → Text} (hf : ∀ s, c ∉ f s) (node : Node) :
    (node.mapTexts f).Avoids c := by
  induction node using Node.mapTexts.induct with
  | case1 s =>
    rw [mapTexts]
    exact .text (hf s)
  | case2 name attributes children ih =>
    rw [mapTexts]
    refine .element (fun a hm ↦ ?_) fun child hm ↦ ?_
    · obtain ⟨b, -, rfl⟩ := List.mem_map.mp hm
      exact hf b.2
    · obtain ⟨child, hchild, rfl⟩ := List.mem_map.mp hm
      exact ih child hchild

theorem Node.IsSound.spread_nil {height : Nat} {node : Node} (h : node.IsSound height)
    (depth : Nat) :
    node.spread (fun _ ↦ []) depth = node := by
  induction h generalizing depth with
  | empty _ =>
    rw [spread]
    rfl
  | text _ _ =>
    rw [spread]
    rfl
  | container _ hne hc ih =>
    have hnone : ofGap [] = [] := rfl
    have hchildren := List.flatMap_congr fun child hm ↦ congrArg (fun node ↦ [node])
      (ih child hm (depth + 1))
    rw [spread_container hne hc, hnone, List.append_nil]
    exact congrArg (element _ _) (hchildren.trans (List.flatMap_singleton' _))

theorem Gap.startsWith_mark {gap rest : Text} (h : Gap gap)
    (hr : Text.startsWith [byteOrderMark] rest = false) :
    Text.startsWith [byteOrderMark] (gap ++ rest) = false := by
  induction h with
  | nil => exact hr
  | @white s more hs _ ih =>
    cases s with
    | nil => exact ih
    | cons c s =>
      have hc : c ≠ byteOrderMark := by
        rintro rfl
        exact absurd (hs _ (List.mem_cons_self ..)) (by decide)
      rw [List.append_assoc, List.cons_append, Text.startsWith_cons,
        beq_eq_false_iff_ne.mpr (Ne.symm hc), Bool.false_and]
  | comment _ _ _ => rfl

theorem Spelled.startsWith_mark {node : Node} {s : Text} {n : Nat} (h : Spelled [node] s n) :
    Text.startsWith [byteOrderMark] s = false := by
  cases h with
  | empty hgap _ _ => exact hgap.startsWith_mark rfl
  | leaf hgap _ _ _ _ => exact hgap.startsWith_mark rfl
  | container hgap _ _ _ _ _ => exact hgap.startsWith_mark rfl

end Markup

namespace Project

/-- The root of a document in which the excluded paths have their usual name or their older one. -/
def variantNode (isOlder : Bool) (p : Project) : Node :=
  .element rootElement [(versionAttribute, version)]
    ((Section.order.flatMap p.sectionNodes).map fun node ↦ if isOlder then node.older else node)

def front (isMarked isDeclared : Bool) : Text :=
  (if isMarked then [byteOrderMark] else []) ++ if isDeclared then declaration else []

theorem isEntry_of_mem_sectionNodes (p : Project) (s : Section) :
    ∀ node ∈ p.sectionNodes s, IsEntry node := by
  have of_container {name : Text} {items : List Node} (hname : name.IsPlainName)
      (hrole : ∀ s, Role.ofName? name ≠ some (.scalar s)) :
      ∀ node ∈ container name items, ∀ s, node.name?.bind Role.ofName? ≠ some (.scalar s) := by
    intro node hm s hs
    rw [container] at hm
    split at hm
    · cases hm
    · rw [List.mem_singleton.mp hm, Node.name?_element hname] at hs
      exact hrole s hs
  intro node hm
  refine ⟨p.sectionNodes_isSound s node hm, fun scalar hscalar ↦ ?_⟩
  cases s with
  | scalar s => exact p.scalarNodes_isSound s 0 node hm
  | list field =>
    have hrole : ∀ s, Role.ofName? (ListEntry.canonical field).container ≠ some (.scalar s) := by
      intro s hs
      cases field <;> cases hs
    exact absurd hscalar (of_container (by cases field <;> decide) hrole node hm scalar)
  | suppressions =>
    exact absurd hscalar (of_container (by decide) (fun _ hs ↦ by cases hs) node hm scalar)
  | tools => exact absurd hscalar (of_container (by decide) (fun _ hs ↦ by cases hs) node hm scalar)

theorem isEntry_variant (isOlder : Bool) (p : Project) :
    ∀ node ∈ (Section.order.flatMap p.sectionNodes).map fun node ↦
      if isOlder then node.older else node,
      IsEntry node := by
  intro node hm
  obtain ⟨child, hchild, rfl⟩ := List.mem_map.mp hm
  obtain ⟨s, -, hs⟩ := List.mem_flatMap.mp hchild
  have hentry := p.isEntry_of_mem_sectionNodes s child hs
  cases isOlder with
  | true => exact hentry.older
  | false => exact hentry

theorem variant_ne_nil (isOlder : Bool) (p : Project) :
    (Section.order.flatMap p.sectionNodes).map
      (fun node ↦ if isOlder then node.older else node) ≠ [] :=
  mt List.map_eq_nil_iff.mp p.nodes_ne_nil

theorem variantNode_isSound (isOlder : Bool) (p : Project) : (p.variantNode isOlder).IsSound 2 :=
  .container (.of_sublist [versionAttribute] (by decide) (List.Sublist.refl _))
    (p.variant_ne_nil isOlder)
    fun node hm ↦ (p.isEntry_variant isOlder node hm).sound

theorem IsSettled.avoids_variantNode {p : Project} (hp : p.IsSettled) (isOlder : Bool) :
    (p.variantNode isOlder).Avoids carriageReturn := by
  have hself : p.mapTexts Text.unifyLines = p :=
    mapTexts_eq_self fun s hm ↦ Text.unifyLines_eq_self (hp.texts s hm)
  have htree : p.toNode.Avoids carriageReturn := by
    rw [← hself, ← Text.unifyLines_seamless.toNode]
    exact Node.avoids_mapTexts Text.carriageReturn_not_mem_unifyLines p.toNode
  refine .element htree.forall_attributes fun node hm ↦ ?_
  obtain ⟨child, hchild, rfl⟩ := List.mem_map.mp hm
  have havoids := htree.forall_children child hchild
  cases isOlder with
  | true => exact havoids.older
  | false => exact havoids

theorem ofNode_toNode (p : Project) : ofNode p.toNode = p.stored := by
  have h := ofNode_spread (fun _ ↦ []) p
  rwa [p.toNode_isSound.spread_nil] at h

/-- However the root is spelled, it gives the project. -/
theorem ofDocument_shown {isOlder : Bool} {p : Project} {nodes : List Node}
    (h : Shows [p.variantNode isOlder] nodes) :
    ofDocument nodes = .parsed ⟨p.stored, some version⟩ := by
  have hsound := p.variantNode_isSound isOlder
  have hshown := h.forall₂ fun node hm ↦ List.mem_singleton.mp hm ▸ hsound
  generalize hfilter : nodes.filter (fun child ↦ child.name?.isSome) = filtered at hshown
  cases hshown with
  | @cons _ root _ _ hroot hnil =>
    cases hnil
    have hfind : nodes.find? (·.name?.isSome) = some root := by
      rw [← List.head?_filter, hfilter, List.head?_cons]
    have hname : root.name? = some rootElement := by
      rw [hroot.name?_eq, variantNode, Node.name?_element (by decide)]
    have hversion : root.attribute? versionAttribute = some version :=
      hroot.attribute?_eq versionAttribute
    have helements : (p.variantNode isOlder).elements =
        (Section.order.flatMap p.sectionNodes).map fun node ↦ if isOlder then node.older
          else node :=
      List.filter_eq_self.mpr fun node hm ↦ (p.isEntry_variant isOlder node hm).sound.isSome_name?
    have hplain : p.toNode.elements = Section.order.flatMap p.sectionNodes :=
      List.filter_eq_self.mpr fun node hm ↦ (p.nodes_isSound node hm).isSome_name?
    have hnode : ofNode root = p.stored := by
      have hfold :=
        foldl_takeNode_shown (hroot.elements hsound).2 (helements ▸ p.isEntry_variant isOlder) {}
      rw [ofNode, hfold, helements, List.foldl_map, ← ofNode_toNode, ofNode, hplain]
      refine List.foldl_ext _ _ _ fun q node hm ↦ ?_
      cases isOlder with
      | true => exact takeNode_older (p.nodes_isSound node hm) q
      | false => rfl
    rw [ofDocument, hfind]
    simp only [hname, hversion, hnode, beq_self_eq_true, if_true]

variable {p : Project} {isOlder : Bool} {body : Text} {n : Nat}

theorem dropMark_front (h : Spelled [p.variantNode isOlder] body n) (isMarked isDeclared : Bool) :
    dropMark (front isMarked isDeclared ++ body) = front false isDeclared ++ body := by
  have hstart : Text.startsWith [byteOrderMark] (front false isDeclared ++ body) = false := by
    cases isDeclared with
    | true => rfl
    | false => exact h.startsWith_mark
  cases isMarked with
  | true => rfl
  | false => exact if_neg (ne_true_of_eq_false hstart)

theorem check_spelled (h : Spelled [p.variantNode isOlder] body n) (isDeclared : Bool) :
    check (front false isDeclared ++ body) = .ok () := by
  obtain ⟨rest, progress, hprolog, hrun, hfinish⟩ :=
    Check.run_spelled h (p.variantNode_isSound isOlder) (!isDeclared)
  have hskip : Check.skipProlog true (front false isDeclared ++ body) = .ok (some rest) := by
    rw [← hprolog]
    cases isDeclared with
    | true => exact skipProlog_declaration body
    | false => rfl
  rw [check, hskip]
  simp only [bind, Except.bind, hrun, hfinish]

theorem readDocument_spelled (hp : p.IsSettled) (h : Spelled [p.variantNode isOlder] body n)
    (isDeclared : Bool) :
    ∃ nodes, Shows [p.variantNode isOlder] nodes ∧
      Metered .excess n (readDocument (front false isDeclared ++ body)) nodes := by
  have hsound : ∀ node ∈ [p.variantNode isOlder], node.IsSound 2 :=
    fun node hm ↦ List.mem_singleton.mp hm ▸ p.variantNode_isSound isOlder
  have havoids : ∀ node ∈ [p.variantNode isOlder], node.Avoids carriageReturn :=
    fun node hm ↦ List.mem_singleton.mp hm ▸ hp.avoids_variantNode isOlder
  have hfront : carriageReturn ∉ front false isDeclared := by cases isDeclared <;> decide
  have hleads : (Reading.inside .document [] [] 0).Leads (front false isDeclared)
      (Reading.inside .document [] [] 0) := by
    cases isDeclared with
    | true =>
      refine Reading.leads_of_takeMarkup (Nat.le_refl _) fun hx rest ↦ ?_
      exact .ok _ hx
    | false => exact .refl _
  obtain ⟨body', h', hunified⟩ := h.exists_unifies hsound havoids
  have hlines : (front false isDeclared ++ body).unifyLines = front false isDeclared ++ body' := by
    have hall := (unifies_self hfront).append hunified []
    have hnil : Text.unifyLines [] = [] := rfl
    rwa [List.append_nil, hnil, List.append_nil] at hall
  obtain ⟨nodes, white, -, hshows, hbody⟩ :=
    Reading.leads_spelled h' hsound .document [] (show ampersand ∉ ([] : Text)
      from List.not_mem_nil) 0 (by decide)
  refine ⟨nodes, hshows, ?_⟩
  have hall := (hleads.trans hbody).metered (Nat.zero_le _)
  rw [readDocument, hlines, ← Nat.zero_add n]
  have hchildren : (nodes.reverse ++ Frame.document.children).reverse = nodes :=
    (congrArg List.reverse (List.append_nil _)).trans (List.reverse_reverse nodes)
  have hmap := hall.map fun r ↦ r.cursor.children
  exact hchildren ▸ hmap

/-- A project is read from its document however that is spelled, unless too many references in it
count. -/
theorem parse_spelled (hp : p.IsSettled) (h : Spelled [p.variantNode isOlder] body n)
    (isMarked isDeclared : Bool) :
    (n ≤ Expansion.maxCount → parse (front isMarked isDeclared ++ body) =
      .parsed ⟨p, some version⟩) ∧
    (Expansion.maxCount < n → ∃ k, Expansion.maxCount < k ∧
      parse (front isMarked isDeclared ++ body) = .failed (.unreadable (.excess k))) := by
  have hdrop := dropMark_front h isMarked isDeclared
  have hcheck : check (checkedText (front isMarked isDeclared ++ body)) = .ok () := by
    rw [checkedText, hdrop, dropMark_front h]
    exact check_spelled h isDeclared
  obtain ⟨nodes, hshows, hok, herror⟩ := readDocument_spelled hp h isDeclared
  rw [← hdrop] at hok herror
  constructor
  · intro hn
    rw [parse_of_read hcheck (hok hn), ofDocument_shown hshows, stored_eq_self hp.lineNumbers]
  · intro hn
    obtain ⟨k, hk, he⟩ := herror hn
    exact ⟨k, hk, parse_of_unreadable hcheck he⟩

def marked : Project where
  buildDir := "a<b"
  excludedPaths := ["x'y"]

/-- A document of it in its own spelling: comments in places, other quotes and spaces, a text in
three pieces, and the older name of a section. -/
def handwritten : Text :=
  "\n<!-- <a \r -->\t<project\tversion = '1' >\n<builddir>a<![CDATA[<]]><!--&-->b</builddir\n>"
    ++ "<analyze-all-vs-configs>true</analyze-all-vs-configs>"
    ++ "<ignore><!----><path name='x&apos;y'></path></ignore> </project>"

theorem handwritten_spelled : Spelled [marked.variantNode true] handwritten 1 := by
  let version' : WrittenAttribute :=
    { space := "\t", name := "version", beforeEquals := " ", afterEquals := " "
      mark := apostrophe, raw := "1" }
  let name' : WrittenAttribute :=
    { space := " ", name := "name", mark := apostrophe, raw := "x&apos;y" }
  have hversion : Attributes.Spelled [(versionAttribute, version)] [version'] 0 :=
    .cons (a := version') (by decide) (by decide) (by decide) (by decide) rfl (by decide)
      (escaped_self (by decide)) .nil
  have hvalue : Escaped "x&apos;y" "x'y" 1 := by
    have hmark : (apostrophe, ("&apos;" : Text)) ∈ Reference.written := by decide
    exact .plain (by decide) (by decide) (.reference hmark (escaped_self (s := "y") (by decide)))
  have hname : Attributes.Spelled [(nameAttribute, "x'y")] [name'] 1 :=
    .cons (a := name') (by decide) (by decide) (by decide) (by decide) rfl (by decide) hvalue .nil
  have hcontent : Content "a<![CDATA[<]]><!--&-->b" "a<b" 0 :=
    .run (escaped_self (s := "a") (by decide)) (.characterSection (s := "<") (by decide)
      (.comment (c := "&") (by decide) (.run (escaped_self (s := "b") (by decide)) .nil)))
  have hflag : Content "true" "true" 0 := .run (escaped_self (s := "true") (by decide)) .nil
  have hgap : Gap "\n<!-- <a \r -->\t" :=
    .white (s := "\n") (by decide)
      (.comment (c := " <a \r ") (by decide) (.white (s := "\t") (by decide) .nil))
  have hpath : Spelled [.element "path" [(nameAttribute, "x'y")] []] _ 1 :=
    @Spelled.leaf (comment []) "path" [] [] [] [] _ ⟨"path", [name'], []⟩ _ _ _ _
      (.comment (c := []) (by decide) .nil) ⟨rfl, hname, by decide⟩ .nil (by decide) (.nil .nil)
  have hsections := @Spelled.leaf "\n" "builddir" _ _ "\n" _ [] ⟨"builddir", [], []⟩ _ _ _ _
    (.white (s := "\n") (by decide) .nil) ⟨rfl, .nil, by decide⟩ hcontent (by decide)
    (@Spelled.leaf [] "analyze-all-vs-configs" _ _ [] _ [] ⟨"analyze-all-vs-configs",
      [], []⟩ _ _ _ _
      .nil ⟨rfl, .nil, by decide⟩ hflag (by decide)
      (@Spelled.container [] "ignore" _ [] " " _ ⟨"ignore", [], []⟩ _ _ _ _ _
        .nil ⟨rfl, .nil, by decide⟩ (by decide) hpath (by decide) (.nil (.white (by decide) .nil))))
  have hroot := @Spelled.container _ "project" _ [] [] _ ⟨"project", [version'], " "⟩ _ _ _ _ _
    hgap ⟨rfl, hversion, by decide⟩ (List.cons_ne_nil _ _) hsections (by decide) (.nil .nil)
  have hnode : Spelled [marked.variantNode true] _ 1 := hroot
  refine (congrArg (fun s ↦ Spelled _ s 1) ?_).mp hnode
  decide +kernel

theorem parse_handwritten :
    marked.IsSettled ∧ Spelled [marked.variantNode true] handwritten 1 ∧
      parse (front true true ++ handwritten) = .parsed ⟨marked, some version⟩ := by
  have hsettled : marked.IsSettled := ⟨by decide, fun _ hm ↦ absurd hm List.not_mem_nil⟩
  exact ⟨hsettled, handwritten_spelled,
    (parse_spelled hsettled handwritten_spelled true true).1 (by decide)⟩

end Project
end AnalysisProject
