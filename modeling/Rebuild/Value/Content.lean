import Rebuild.Text.CodePoint
import Rebuild.Value.Literal

namespace Rebuild

/-- What is declared for a module or written to a file: a value, or a text of any code
points, which a declaration may also have as its own. -/
inductive Content
  | value (v : Value)
  | text (t : CodeText)
  | renderable (t : CodeText)

/-- Why a content has no bytes to write. -/
inductive ContentFault
  | unencodable (fault : CodeText.Fault)
  | shape
  deriving DecidableEq, Repr

namespace Content

instance : Inhabited Content := ⟨value .null⟩

@[match_pattern] abbrev headerEnd : Content := value .headerEnd

@[match_pattern] abbrev bytes (content : ByteArray) : Content := value (.bytes content)

def kind : Content → String
  | value v => v.kind
  | text _ => "str"
  | renderable _ => "Renderable"

/-- The bytes that a content stands for when it is written to a file. -/
def toBytes : Content → Except ContentFault ByteArray
  | value (.text s) => .ok s.toUTF8
  | bytes content | value (.buffer content) => .ok content
  | text t => t.encode.mapError .unencodable
  | _ => .error .shape

/-- Interface data is a text or bytes. -/
def isExterns : Content → Bool
  | value (.text _) | bytes _ | text _ => true
  | _ => false

def HasBytes (c : Content) : Prop :=
  ∃ content, c.toBytes = .ok content

/-- No surrogate stands in a text that may be one of any code points. -/
def IsEncodable : Content → Prop
  | text t => ∀ n, .surrogate n ∉ t.points
  | _ => True

theorem toBytes_ofString (s : String) : (text s).toBytes = .ok s.toUTF8 := by
  rw [toBytes, CodeText.encode, CodeText.string_ofString]
  rfl

/-- What may be interface data has bytes, but for a text with a surrogate in it. -/
theorem isExterns_cases {c : Content} (h : c.isExterns = true) :
    c.IsEncodable ∧ c.HasBytes ∨
      ¬ c.IsEncodable ∧ ∃ fault, c.toBytes = .error (.unencodable fault) := by
  cases c with
  | value v =>
    cases v with
    | text s => exact .inl ⟨trivial, _, rfl⟩
    | bytes content => exact .inl ⟨trivial, _, rfl⟩
    | _ => cases h
  | renderable t => cases h
  | text t =>
    rcases t.string_cases with ⟨s, rfl⟩ | ⟨⟨fault, hfault⟩, n, hn⟩
    · exact .inl ⟨CodeText.surrogate_not_mem_ofString s, _, toBytes_ofString s⟩
    · refine .inr ⟨fun hnone => hnone n hn, fault, ?_⟩
      rw [toBytes, CodeText.encode, hfault]
      rfl

theorem exists_string_of_hasBytes {t : CodeText} (h : (text t).HasBytes) :
    ∃ s : String, t = s := by
  rcases t.string_cases with hs | ⟨⟨fault, hfault⟩, _⟩
  · exact hs
  · obtain ⟨content, hcontent⟩ := h
    rw [toBytes, CodeText.encode, hfault] at hcontent
    cases hcontent

theorem hasBytes_of_isEncodable {c : Content} (h : c.isExterns = true) (hc : c.IsEncodable) :
    c.HasBytes := by
  rcases isExterns_cases h with ⟨_, hbytes⟩ | ⟨hnot, _⟩
  · exact hbytes
  · exact absurd hc hnot

theorem not_isEncodable_of_toBytes {c : Content} {fault : CodeText.Fault}
    (h : c.toBytes = .error (.unencodable fault)) : ¬ c.IsEncodable := by
  intro hc
  cases c with
  | value v => cases v <;> cases h
  | renderable t => cases h
  | text t =>
    obtain ⟨content, hcontent⟩ := hasBytes_of_isEncodable rfl hc
    simp [hcontent] at h

end Content

end Rebuild
