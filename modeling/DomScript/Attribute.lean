/-
DomScript.Attribute — attributes of elements, and the rule that each key falls under.

The rules are tried in the order style, class, data, event, property. Event keys are recognised
without regard to ASCII letter case; the other rules compare exactly.
-/

namespace DomScript

/-- A key and its value, as written on an element. -/
structure Attribute where
  key : String
  value : String
  deriving DecidableEq

namespace Attribute

/-- The keys of inline event handlers. -/
def eventKeys : List String :=
  ["onabort", "onafterprint", "onbeforeprint", "onbeforeunload", "onblur", "oncancel", "oncanplay",
    "oncanplaythrough", "onchange", "onclick", "oncuechange", "ondblclick", "ondurationchange",
    "onemptied", "onended", "onerror", "onfocus", "onhashchange", "oninput", "oninvalid",
    "onkeydown", "onkeypress", "onkeyup", "onload", "onloadeddata", "onloadedmetadata",
    "onloadstart", "onmessage", "onmousedown", "onmouseenter", "onmouseleave", "onmousemove",
    "onmouseout", "onmouseover", "onmouseup", "onmousewheel", "onoffline", "ononline", "onpagehide",
    "onpageshow", "onpause", "onplay", "onplaying", "onpopstate", "onprogress", "onratechange",
    "onresize", "onreset", "onscroll", "onseeked", "onseeking", "onselect", "onshow", "onstalled",
    "onstorage", "onsubmit", "onsuspend", "ontimeupdate", "onunload", "onvolumechange", "onwaiting"]

/-- Whether a key names an event handler. The keys of the table are lower-case, so folding the
ASCII capitals of the given key compares the two without regard to case. -/
def isEventKey (key : String) : Bool :=
  eventKeys.any fun event => event.toList == key.toList.map Char.toLower

/-- The characters that mark a data key. -/
def dataMark : List Char :=
  ['d', 'a', 't', 'a', '-']

/-- What an attribute becomes. -/
inductive Rule where
  | style
  | className
  | dataset
  | event
  | property
  deriving DecidableEq

/-- The rule for a key. -/
def Rule.forKey (key : String) : Rule :=
  if key = "style" then .style
  else if key = "class" then .className
  else if dataMark.isPrefixOf key.toList then .dataset
  else if isEventKey key then .event
  else .property

/-- The style rule is for one key only. -/
theorem Rule.eq_style {key : String} (h : forKey key = .style) : key = "style" := by
  unfold forKey at h
  split at h
  · assumption
  · split at h
    · cases h
    · split at h
      · cases h
      · split at h <;> cases h

end Attribute

end DomScript
