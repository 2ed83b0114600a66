import Mathlib.Data.List.Basic

set_option autoImplicit false

/- The types of the nodes program: what a node can be made of, and where it can be. -/
namespace Nosana.Nodes

/-- The kind of chip a node has. -/
inductive ArchitectureType
  | amd64
  | arm32v6
  | arm32v7
  | arm64v8
  | windowsAmd64
  | ppc64le
  | s390x
  | mips64le
  | riscv64
  | i386
  | unknown
  deriving DecidableEq, Repr

namespace ArchitectureType

def ofU8 (architectureType : UInt8) : ArchitectureType :=
  match architectureType with
  | 0 => .amd64
  | 1 => .arm32v6
  | 2 => .arm32v7
  | 3 => .arm64v8
  | 4 => .windowsAmd64
  | 5 => .ppc64le
  | 6 => .s390x
  | 7 => .mips64le
  | 8 => .riscv64
  | 9 => .i386
  | _ => .unknown

def toU8 : ArchitectureType → UInt8
  | amd64 => 0
  | arm32v6 => 1
  | arm32v7 => 2
  | arm64v8 => 3
  | windowsAmd64 => 4
  | ppc64le => 5
  | s390x => 6
  | mips64le => 7
  | riscv64 => 8
  | i386 => 9
  | unknown => 255

/-- The byte tells a known architecture from an unknown one. -/
theorem toU8_ne_unknown {architecture : ArchitectureType} :
    architecture.toU8 ≠ unknown.toU8 ↔ architecture ≠ unknown := by
  cases architecture <;> decide

end ArchitectureType

/-- The ISO code of a country. The British Indian Ocean Territory goes by its code of three letters,
as its two letters are a name of Lean's own. -/
inductive CountryCode
  | AD | AE | AF | AG | AI | AL | AM | AO | AQ | AR | AS | AT | AU | AW | AX | AZ | BA | BB | BD
  | BE | BF | BG | BH | BI | BJ | BL | BM | BN | BO | BQ | BR | BS | BT | BV | BW | BY | BZ | CA
  | CC | CD | CF | CG | CH | CI | CK | CL | CM | CN | CO | CR | CU | CV | CW | CX | CY | CZ | DE
  | DJ | DK | DM | DO | DZ | EC | EE | EG | EH | ER | ES | ET | FI | FJ | FK | FM | FO | FR | GA
  | GB | GD | GE | GF | GG | GH | GI | GL | GM | GN | GP | GQ | GR | GS | GT | GU | GW | GY | HK
  | HM | HN | HR | HT | HU | ID | IE | IL | IM | IN | IOT | IQ | IR | IS | IT | JE | JM | JO | JP
  | KE | KG | KH | KI | KM | KN | KP | KR | KW | KY | KZ | LA | LB | LC | LI | LK | LR | LS | LT
  | LU | LV | LY | MA | MC | MD | ME | MF | MG | MH | MK | ML | MM | MN | MO | MP | MQ | MR | MS
  | MT | MU | MV | MW | MX | MY | MZ | NA | NC | NE | NF | NG | NI | NL | NO | NP | NR | NU | NZ
  | OM | PA | PE | PF | PG | PH | PK | PL | PM | PN | PR | PS | PT | PW | PY | QA | RE | RO | RS
  | RU | RW | SA | SB | SC | SD | SE | SG | SH | SI | SJ | SK | SL | SM | SN | SO | SR | SS | ST
  | SV | SX | SY | SZ | TC | TD | TF | TG | TH | TJ | TK | TL | TM | TN | TO | TR | TT | TV | TW
  | TZ | UA | UG | UM | US | UY | UZ | VA | VC | VE | VG | VI | VN | VU | WF | WS | YE | YT | ZA
  | ZM | ZW | unknown
  deriving DecidableEq, Repr

namespace CountryCode

/-- The number of a country. -/
def toU16 : CountryCode → UInt16
  | .AD => 20 | .AE => 784 | .AF => 4 | .AG => 28 | .AI => 660 | .AL => 8 | .AM => 51 | .AO => 24
  | .AQ => 10 | .AR => 32 | .AS => 16 | .AT => 40 | .AU => 36 | .AW => 533 | .AX => 248
  | .AZ => 31 | .BA => 70 | .BB => 52 | .BD => 50 | .BE => 56 | .BF => 854 | .BG => 100
  | .BH => 48 | .BI => 108 | .BJ => 204 | .BL => 652 | .BM => 60 | .BN => 96 | .BO => 68
  | .BQ => 535 | .BR => 76 | .BS => 44 | .BT => 64 | .BV => 74 | .BW => 72 | .BY => 112
  | .BZ => 84 | .CA => 124 | .CC => 166 | .CD => 180 | .CF => 140 | .CG => 178 | .CH => 756
  | .CI => 384 | .CK => 184 | .CL => 152 | .CM => 120 | .CN => 156 | .CO => 170 | .CR => 188
  | .CU => 192 | .CV => 132 | .CW => 531 | .CX => 162 | .CY => 196 | .CZ => 203 | .DE => 276
  | .DJ => 262 | .DK => 208 | .DM => 212 | .DO => 214 | .DZ => 12 | .EC => 218 | .EE => 233
  | .EG => 818 | .EH => 732 | .ER => 232 | .ES => 724 | .ET => 231 | .FI => 246 | .FJ => 242
  | .FK => 238 | .FM => 583 | .FO => 234 | .FR => 250 | .GA => 266 | .GB => 826 | .GD => 308
  | .GE => 268 | .GF => 254 | .GG => 831 | .GH => 288 | .GI => 292 | .GL => 304 | .GM => 270
  | .GN => 324 | .GP => 312 | .GQ => 226 | .GR => 300 | .GS => 239 | .GT => 320 | .GU => 316
  | .GW => 624 | .GY => 328 | .HK => 344 | .HM => 334 | .HN => 340 | .HR => 191 | .HT => 332
  | .HU => 348 | .ID => 360 | .IE => 372 | .IL => 376 | .IM => 833 | .IN => 356 | .IOT => 86
  | .IQ => 368 | .IR => 364 | .IS => 352 | .IT => 380 | .JE => 832 | .JM => 388 | .JO => 400
  | .JP => 392 | .KE => 404 | .KG => 417 | .KH => 116 | .KI => 296 | .KM => 174 | .KN => 659
  | .KP => 408 | .KR => 410 | .KW => 414 | .KY => 136 | .KZ => 398 | .LA => 418 | .LB => 422
  | .LC => 662 | .LI => 438 | .LK => 144 | .LR => 430 | .LS => 426 | .LT => 440 | .LU => 442
  | .LV => 428 | .LY => 434 | .MA => 504 | .MC => 492 | .MD => 498 | .ME => 499 | .MF => 663
  | .MG => 450 | .MH => 584 | .MK => 807 | .ML => 466 | .MM => 104 | .MN => 496 | .MO => 446
  | .MP => 580 | .MQ => 474 | .MR => 478 | .MS => 500 | .MT => 470 | .MU => 480 | .MV => 462
  | .MW => 454 | .MX => 484 | .MY => 458 | .MZ => 508 | .NA => 516 | .NC => 540 | .NE => 562
  | .NF => 574 | .NG => 566 | .NI => 558 | .NL => 528 | .NO => 578 | .NP => 524 | .NR => 520
  | .NU => 570 | .NZ => 554 | .OM => 512 | .PA => 591 | .PE => 604 | .PF => 258 | .PG => 598
  | .PH => 608 | .PK => 586 | .PL => 616 | .PM => 666 | .PN => 612 | .PR => 630 | .PS => 275
  | .PT => 620 | .PW => 585 | .PY => 600 | .QA => 634 | .RE => 638 | .RO => 642 | .RS => 688
  | .RU => 643 | .RW => 646 | .SA => 682 | .SB => 90 | .SC => 690 | .SD => 729 | .SE => 752
  | .SG => 702 | .SH => 654 | .SI => 705 | .SJ => 744 | .SK => 703 | .SL => 694 | .SM => 674
  | .SN => 686 | .SO => 706 | .SR => 740 | .SS => 728 | .ST => 678 | .SV => 222 | .SX => 534
  | .SY => 760 | .SZ => 748 | .TC => 796 | .TD => 148 | .TF => 260 | .TG => 768 | .TH => 764
  | .TJ => 762 | .TK => 772 | .TL => 626 | .TM => 795 | .TN => 788 | .TO => 776 | .TR => 792
  | .TT => 780 | .TV => 798 | .TW => 158 | .TZ => 834 | .UA => 804 | .UG => 800 | .UM => 581
  | .US => 840 | .UY => 858 | .UZ => 860 | .VA => 336 | .VC => 670 | .VE => 862 | .VG => 92
  | .VI => 850 | .VN => 704 | .VU => 548 | .WF => 876 | .WS => 882 | .YE => 887 | .YT => 175
  | .ZA => 710 | .ZM => 894 | .ZW => 716 | .unknown => 999

/-- The cast of a country code to `u8`, which keeps the low byte of its number. -/
def asU8 (country : CountryCode) : UInt8 := country.toU16.toUInt8

/-- The numbers that `CountryCode::from` matches on, with the country of each. -/
def table : List (UInt16 × CountryCode) :=
   [(20, .AD), (784, .AE), (4, .AF), (28, .AG), (660, .AI), (8, .AL), (51, .AM), (24, .AO),
    (10, .AQ), (32, .AR), (16, .AS), (40, .AT), (36, .AU), (533, .AW), (248, .AX), (31, .AZ),
    (70, .BA), (52, .BB), (50, .BD), (56, .BE), (854, .BF), (100, .BG), (48, .BH), (108, .BI),
    (204, .BJ), (652, .BL), (60, .BM), (96, .BN), (68, .BO), (535, .BQ), (76, .BR), (44, .BS),
    (64, .BT), (74, .BV), (72, .BW), (112, .BY), (84, .BZ), (124, .CA), (166, .CC), (180, .CD),
    (140, .CF), (178, .CG), (756, .CH), (384, .CI), (184, .CK), (152, .CL), (120, .CM),
    (156, .CN), (170, .CO), (188, .CR), (192, .CU), (132, .CV), (531, .CW), (162, .CX),
    (196, .CY), (203, .CZ), (276, .DE), (262, .DJ), (208, .DK), (212, .DM), (214, .DO),
    (12, .DZ), (218, .EC), (233, .EE), (818, .EG), (732, .EH), (232, .ER), (724, .ES),
    (231, .ET), (246, .FI), (242, .FJ), (238, .FK), (583, .FM), (234, .FO), (250, .FR),
    (266, .GA), (826, .GB), (308, .GD), (268, .GE), (254, .GF), (831, .GG), (288, .GH),
    (292, .GI), (304, .GL), (270, .GM), (324, .GN), (312, .GP), (226, .GQ), (300, .GR),
    (239, .GS), (320, .GT), (316, .GU), (624, .GW), (328, .GY), (344, .HK), (334, .HM),
    (340, .HN), (191, .HR), (332, .HT), (348, .HU), (360, .ID), (372, .IE), (376, .IL),
    (833, .IM), (356, .IN), (86, .IOT), (368, .IQ), (364, .IR), (352, .IS), (380, .IT),
    (832, .JE), (388, .JM), (400, .JO), (392, .JP), (404, .KE), (417, .KG), (116, .KH),
    (296, .KI), (174, .KM), (659, .KN), (408, .KP), (410, .KR), (414, .KW), (136, .KY),
    (398, .KZ), (418, .LA), (422, .LB), (662, .LC), (438, .LI), (144, .LK), (430, .LR),
    (426, .LS), (440, .LT), (442, .LU), (428, .LV), (434, .LY), (504, .MA), (492, .MC),
    (498, .MD), (499, .ME), (663, .MF), (450, .MG), (584, .MH), (807, .MK), (466, .ML),
    (104, .MM), (496, .MN), (446, .MO), (580, .MP), (474, .MQ), (478, .MR), (500, .MS),
    (470, .MT), (480, .MU), (462, .MV), (454, .MW), (484, .MX), (458, .MY), (508, .MZ),
    (516, .NA), (540, .NC), (562, .NE), (574, .NF), (566, .NG), (558, .NI), (528, .NL),
    (578, .NO), (524, .NP), (520, .NR), (570, .NU), (554, .NZ), (512, .OM), (591, .PA),
    (604, .PE), (258, .PF), (598, .PG), (608, .PH), (586, .PK), (616, .PL), (666, .PM),
    (612, .PN), (630, .PR), (275, .PS), (620, .PT), (585, .PW), (600, .PY), (634, .QA),
    (638, .RE), (642, .RO), (688, .RS), (643, .RU), (646, .RW), (682, .SA), (90, .SB),
    (690, .SC), (729, .SD), (752, .SE), (702, .SG), (654, .SH), (705, .SI), (744, .SJ),
    (703, .SK), (694, .SL), (674, .SM), (686, .SN), (706, .SO), (740, .SR), (728, .SS),
    (678, .ST), (222, .SV), (534, .SX), (760, .SY), (748, .SZ), (796, .TC), (148, .TD),
    (260, .TF), (768, .TG), (764, .TH), (762, .TJ), (772, .TK), (626, .TL), (795, .TM),
    (788, .TN), (776, .TO), (792, .TR), (780, .TT), (798, .TV), (158, .TW), (834, .TZ),
    (804, .UA), (800, .UG), (581, .UM), (840, .US), (858, .UY), (860, .UZ), (336, .VA),
    (670, .VC), (862, .VE), (92, .VG), (850, .VI), (704, .VN), (548, .VU), (876, .WF),
    (882, .WS), (887, .YE), (175, .YT), (710, .ZA), (894, .ZM), (716, .ZW)]

def ofU16 (countryCode : UInt16) : CountryCode := (table.lookup countryCode).getD .unknown

/-- The table lists known countries under their own numbers. -/
theorem table_sound : ∀ entry ∈ table, entry.2 ≠ .unknown ∧ entry.2.toU16 = entry.1 := by
  decide +kernel

/-- One of them has the low byte of the number that stands for an unknown country. -/
theorem table_asU8 : ∀ entry ∈ table, entry.2.asU8 = unknown.asU8 ↔ entry.2 = .ET := by
  decide +kernel

variable {countryCode : UInt16}

theorem mem_table_of_ofU16 (known : ofU16 countryCode ≠ .unknown) :
    (countryCode, ofU16 countryCode) ∈ table := by
  unfold ofU16 at known ⊢
  cases found : table.lookup countryCode with
  | none => simp [found] at known
  | some country =>
      obtain ⟨front, back, split, -⟩ := List.lookup_eq_some_iff.mp found
      rw [split]
      simp

/-- A known number is the number of its country. -/
theorem toU16_ofU16 (known : ofU16 countryCode ≠ .unknown) :
    (ofU16 countryCode).toU16 = countryCode :=
  (table_sound _ (mem_table_of_ofU16 known)).2

/-- By the low byte Ethiopia cannot be told from an unknown country. -/
theorem asU8_ne_unknown :
    (ofU16 countryCode).asU8 ≠ unknown.asU8 ↔
      ofU16 countryCode ≠ .unknown ∧ countryCode ≠ ET.toU16 := by
  by_cases known : ofU16 countryCode = .unknown
  · simp [known]
  · have listed := table_asU8 _ (mem_table_of_ofU16 known)
    have same : ofU16 countryCode = .ET ↔ countryCode = ET.toU16 := by
      constructor
      · intro ethiopia
        rw [← toU16_ofU16 known, ethiopia]
      · rintro rfl
        rfl
    rw [Ne, listed, same]
    exact ⟨fun other => ⟨known, other⟩, And.right⟩

end CountryCode

end Nosana.Nodes
