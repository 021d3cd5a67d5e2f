import Workflow.Time.Transition

/-! The offsets of some named zones from the introduction of standard time to the end of 2099. -/
namespace Workflow.Time

/-- The changes before 2007. -/
def newYorkChanges : List (Int × Int) :=
  inTurns (-18000) (-14400)
    [-2717650800, -1633280400, -1615140000, -1601830800, -1583690400, -1570381200, -1551636000,
     -1536512400, -1523210400, -1504458000, -1491760800, -1473008400, -1459706400, -1441558800,
     -1428256800, -1410109200, -1396807200, -1378659600, -1365357600, -1347210000, -1333908000,
     -1315155600, -1301853600, -1283706000, -1270404000, -1252256400, -1238954400, -1220806800,
     -1207504800, -1189357200, -1176055200, -1157302800, -1144605600, -1125853200, -1112551200,
     -1094403600, -1081101600, -1062954000, -1049652000, -1031504400, -1018202400, -1000054800,
     -986752800, -968000400, -955303200, -936550800, -923248800, -905101200, -891799200, -880218000,
     -765396000, -747248400, -733946400, -715798800, -702496800, -684349200, -671047200, -652899600,
     -639597600, -620845200, -608148000, -589395600, -576093600, -557946000, -544644000, -526496400,
     -513194400, -495046800, -481744800, -463597200, -447271200, -431542800, -415821600, -400093200,
     -384372000, -368643600, -352922400, -337194000, -321472800, -305744400, -289418400, -273690000,
     -257968800, -242240400, -226519200, -210790800, -195069600, -179341200, -163620000, -147891600,
     -131565600, -116442000, -100116000, -84387600, -68666400, -52938000, -37216800, -21488400,
     -5767200, 9961200, 25682400, 41410800, 57736800, 73465200, 89186400, 104914800, 120636000,
     126687600, 152085600, 162370800, 183535200, 199263600, 215589600, 230713200, 247039200,
     262767600, 278488800, 294217200, 309938400, 325666800, 341388000, 357116400, 372837600,
     388566000, 404892000, 420015600, 436341600, 452070000, 467791200, 483519600, 499240800,
     514969200, 530690400, 544604400, 562140000, 576054000, 594194400, 607503600, 625644000,
     638953200, 657093600, 671007600, 688543200, 702457200, 719992800, 733906800, 752047200,
     765356400, 783496800, 796806000, 814946400, 828860400, 846396000, 860310000, 877845600,
     891759600, 909295200, 923209200, 941349600, 954658800, 972799200, 986108400, 1004248800,
     1018162800, 1035698400, 1049612400, 1067148000, 1081062000, 1099202400, 1112511600, 1130652000,
     1143961200, 1162101600]

def newYorkYearly : List Yearly :=
  [⟨3, 8, 25200, -14400⟩, ⟨11, 1, 21600, -18000⟩]

def saoPauloChanges : List (Int × Int) :=
  inTurns (-10800) (-7200)
    [-1767214412, -1206957600, -1191362400, -1175374800, -1159826400, -633819600, -622069200,
     -602283600, -591832800, -570747600, -560210400, -539125200, -531352800, -195426000, -184197600,
     -155163600, -150069600, -128898000, -121125600, -99954000, -89589600, -68418000, -57967200,
     499748400, 511236000, 530593200, 540266400, 562129200, 571197600, 592974000, 602042400,
     624423600, 634701600, 656478000, 666756000, 687927600, 697600800, 719982000, 728445600,
     750826800, 761709600, 782276400, 793159200, 813726000, 824004000, 844570800, 856058400,
     876106800, 888717600, 908074800, 919562400, 938919600, 951616800, 970974000, 982461600,
     1003028400, 1013911200, 1036292400, 1045360800, 1066532400, 1076810400, 1099364400, 1108864800,
     1129431600, 1140314400, 1162695600, 1172368800, 1192330800, 1203213600, 1224385200, 1234663200,
     1255834800, 1266717600, 1287284400, 1298167200, 1318734000, 1330221600, 1350788400, 1361066400,
     1382238000, 1392516000, 1413687600, 1424570400, 1445137200, 1456020000, 1476586800, 1487469600,
     1508036400, 1518919200, 1541300400, 1550368800]

def kathmanduChanges : List (Int × Int) :=
  [(-1577943676, 19800), (504901800, 20700)]

def kolkataChanges : List (Int × Int) :=
  [(-3645237208, 21200), (-3155694800, 19270), (-2019705670, 19800), (-891581400, 23400),
   (-872058600, 19800), (-862637400, 23400), (-764145000, 19800)]

def tokyoChanges : List (Int × Int) :=
  inTurns 32400 36000
    [-2587712400, -683802000, -672310800, -654771600, -640861200, -620298000, -609411600,
     -588848400, -577962000]

/-- The changes before 2008. -/
def sydneyChanges : List (Int × Int) :=
  inTurns 36000 39600
    [-2364113092, -1672560000, -1665388800, -883641600, -876124800, -860400000, -844675200,
     -828345600, -813225600, 57686400, 67968000, 89136000, 100022400, 120585600, 131472000,
     152035200, 162921600, 183484800, 194976000, 215539200, 226425600, 246988800, 257875200,
     278438400, 289324800, 309888000, 320774400, 341337600, 352224000, 372787200, 386697600,
     404841600, 415728000, 436291200, 447177600, 467740800, 478627200, 499190400, 511286400,
     530035200, 542736000, 562089600, 574790400, 594144000, 606240000, 625593600, 636480000,
     657043200, 667929600, 688492800, 699379200, 719942400, 731433600, 751996800, 762883200,
     783446400, 794332800, 814896000, 828201600, 846345600, 859651200, 877795200, 891100800,
     909244800, 922550400, 941299200, 954000000, 967305600, 985449600, 1004198400, 1017504000,
     1035648000, 1048953600, 1067097600, 1080403200, 1099152000, 1111852800, 1130601600, 1143907200,
     1162051200, 1174752000, 1193500800]

def sydneyYearly : List Yearly :=
  [⟨4, 1, -28800, 36000⟩, ⟨10, 1, -28800, 39600⟩]

/-- The changes before 1996. -/
def berlinChanges : List (Int × Int) :=
  inTurns 3600 7200
    [-2422054408, -1693706400, -1680483600, -1663455600, -1650150000, -1632006000, -1618700400,
     -938905200, -857257200, -844556400, -828226800, -812502000, -796777200, -781052400] ++
  [(-776563200, 10800), (-765936000, 7200), (-761180400, 3600), (-748479600, 7200),
   (-733273200, 3600), (-717631200, 7200), (-714610800, 10800), (-710380800, 7200)] ++
  inTurns 3600 7200
    [-701910000, -684975600, -670460400, -654130800, -639010800, 323830800, 338950800, 354675600,
     370400400, 386125200, 401850000, 417574800, 433299600, 449024400, 465354000, 481078800,
     496803600, 512528400, 528253200, 543978000, 559702800, 575427600, 591152400, 606877200,
     622602000, 638326800, 654656400, 670381200, 686106000, 701830800, 717555600, 733280400,
     749005200, 764730000, 780454800, 796179600, 811904400]

def berlinYearly : List Yearly :=
  [⟨3, 25, 3600, 7200⟩, ⟨10, 25, 3600, 3600⟩]

/-- Zones by name. A place can have a second name. -/
def namedZones : List (String × Transitions) :=
  [("America/New_York", ⟨-17762, newYorkChanges ++ Yearly.changes newYorkYearly 2007⟩),
    ("America/Sao_Paulo", ⟨-11188, saoPauloChanges⟩),
    ("Asia/Calcutta", ⟨21208, kolkataChanges⟩),
    ("Asia/Kathmandu", ⟨20476, kathmanduChanges⟩),
    ("Asia/Kolkata", ⟨21208, kolkataChanges⟩),
    ("Asia/Tokyo", ⟨33539, tokyoChanges⟩),
    ("Australia/Sydney", ⟨36292, sydneyChanges ++ Yearly.changes sydneyYearly 2008⟩),
    ("EST", ⟨-18000, []⟩),
    ("Etc/GMT+5", ⟨-18000, []⟩),
    ("Etc/UTC", ⟨0, []⟩),
    ("Europe/Berlin", ⟨3208, berlinChanges ++ Yearly.changes berlinYearly 1996⟩),
    ("GMT", ⟨0, []⟩),
    ("US/Eastern", ⟨-17762, newYorkChanges ++ Yearly.changes newYorkYearly 2007⟩)]

theorem mem_of_lookup_namedZones {name : String} {table : Transitions}
    (h : namedZones.lookup name = some table) : (name, table) ∈ namedZones := by
  obtain ⟨before, after, hlist, -⟩ := List.lookup_eq_some_iff.1 h
  rw [hlist]
  exact List.mem_append_right _ List.mem_cons_self

/-- Standard time is at most half a day away from universal time, and so are the local times before
it. -/
theorem near_namedZones : ∀ z ∈ namedZones, ∀ offset ∈ z.2.first :: z.2.changes.map (·.2),
    offset.natAbs < 86400 := by
  decide +kernel

theorem unsigned_namedZones : ∀ z ∈ namedZones,
    z.1.toList.head? ≠ some '+' ∧ z.1.toList.head? ≠ some '-' := by
  decide +kernel

/-- The database with these zones, for runs that are given no other one. -/
def ZoneDatabase.known : ZoneDatabase where
  table? name := namedZones.lookup name
  near h := near_namedZones _ (mem_of_lookup_namedZones h)
  unsigned h := unsigned_namedZones _ (mem_of_lookup_namedZones h)

end Workflow.Time
