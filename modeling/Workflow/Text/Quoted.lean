import Workflow.Text.Digits
import Workflow.Unicode.Hidden

/-! Text between double quotes with every character that cannot be seen spelled out. -/
namespace Workflow.Text

def quotedChar (c : Char) : List Char :=
  if c = '\x00' then ['\\', '0']
  else if c = '\t' then ['\\', 't']
  else if c = '\r' then ['\\', 'r']
  else if c = '\n' then ['\\', 'n']
  else if c = '\\' then ['\\', '\\']
  else if c = '\x22' then ['\\', '\x22']
  else if Unicode.isHidden c then ['\\', 'u', '\x7b'] ++ ofNat 16 c.toNat ++ ['\x7d']
  else [c]

def quoted (s : String) : String :=
  String.ofList (['\x22'] ++ s.toList.flatMap quotedChar ++ ['\x22'])

end Workflow.Text
