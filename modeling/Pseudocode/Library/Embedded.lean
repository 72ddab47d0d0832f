/-
# `Library.Embedded` — the library that is written in the language itself

Two modules that are part of the program: containers, and helpers for strings.
-/
namespace Pseudocode.Embedded

/-- Stack and queue containers. -/
def collections : List String :=
  [
    "# Stack and Queue containers.",
    "#",
    "#   IMPORT \"collections\"",
    "#   s ← collections.Stack()",
    "#   s.push(1)",
    "",
    "CLASS Stack",
    "  items ← []",
    "",
    "  SUBROUTINE push(value)",
    "    this.items.append(value)",
    "  ENDSUBROUTINE",
    "",
    "  # pop returns None when the stack is empty.",
    "  SUBROUTINE pop()",
    "    IF LEN(this.items) = 0 THEN",
    "      RETURN None",
    "    ENDIF",
    "    RETURN this.items.pop()",
    "  ENDSUBROUTINE",
    "",
    "  SUBROUTINE peek()",
    "    IF LEN(this.items) = 0 THEN",
    "      RETURN None",
    "    ENDIF",
    "    RETURN this.items[-1]",
    "  ENDSUBROUTINE",
    "",
    "  SUBROUTINE size()",
    "    RETURN LEN(this.items)",
    "  ENDSUBROUTINE",
    "",
    "  SUBROUTINE is_empty()",
    "    RETURN LEN(this.items) = 0",
    "  ENDSUBROUTINE",
    "",
    "  SUBROUTINE STR()",
    "    RETURN \"Stack(\" + String(this.items) + \")\"",
    "  ENDSUBROUTINE",
    "ENDCLASS",
    "",
    "CLASS Queue",
    "  items ← []",
    "",
    "  SUBROUTINE enqueue(value)",
    "    this.items.append(value)",
    "  ENDSUBROUTINE",
    "",
    "  # dequeue returns None when the queue is empty.",
    "  SUBROUTINE dequeue()",
    "    IF LEN(this.items) = 0 THEN",
    "      RETURN None",
    "    ENDIF",
    "    RETURN this.items.pop(0)",
    "  ENDSUBROUTINE",
    "",
    "  SUBROUTINE peek()",
    "    IF LEN(this.items) = 0 THEN",
    "      RETURN None",
    "    ENDIF",
    "    RETURN this.items[0]",
    "  ENDSUBROUTINE",
    "",
    "  SUBROUTINE size()",
    "    RETURN LEN(this.items)",
    "  ENDSUBROUTINE",
    "",
    "  SUBROUTINE is_empty()",
    "    RETURN LEN(this.items) = 0",
    "  ENDSUBROUTINE",
    "",
    "  SUBROUTINE STR()",
    "    RETURN \"Queue(\" + String(this.items) + \")\"",
    "  ENDSUBROUTINE",
    "ENDCLASS"
  ]

/-- Helpers for strings. -/
def strings : List String :=
  [
    "# String helpers.",
    "",
    "SUBROUTINE JOIN(items, separator)",
    "  result ← \"\"",
    "  FOR i ← 0 TO LEN(items) - 1",
    "    IF i > 0 THEN",
    "      result ← result + separator",
    "    ENDIF",
    "    result ← result + String(items[i])",
    "  ENDFOR",
    "  RETURN result",
    "ENDSUBROUTINE",
    "",
    "# SPLIT with an empty separator splits into characters.",
    "SUBROUTINE SPLIT(text, separator)",
    "  IF separator = \"\" THEN",
    "    RETURN Array(text)",
    "  ENDIF",
    "  parts ← []",
    "  rest ← text",
    "  pos ← POSITION(rest, separator)",
    "  WHILE pos >= 0",
    "    parts.append(SUBSTRING(0, pos - 1, rest))",
    "    rest ← SUBSTRING(pos + LEN(separator), LEN(rest) - 1, rest)",
    "    pos ← POSITION(rest, separator)",
    "  ENDWHILE",
    "  parts.append(rest)",
    "  RETURN parts",
    "ENDSUBROUTINE",
    "",
    "SUBROUTINE REPEAT_STRING(text, count)",
    "  RETURN text * count",
    "ENDSUBROUTINE",
    "",
    "SUBROUTINE REVERSE(text)",
    "  result ← \"\"",
    "  FOR ch IN text",
    "    result ← ch + result",
    "  ENDFOR",
    "  RETURN result",
    "ENDSUBROUTINE"
  ]

/-- The text of lines. -/
def textOf (lines : List String) : String := String.join (lines.map (· ++ "\n"))

/-- The modules by the names of their files, in ascending order. -/
def files : List (String × String) :=
  [("collections.ecp", textOf collections), ("strings.ecp", textOf strings)]

end Pseudocode.Embedded
