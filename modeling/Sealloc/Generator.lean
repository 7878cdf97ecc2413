import Sealloc.SizeClass

/-! The generator tables of `generator.h`: for each small and medium class, numbers that
generate the group of its region indices under addition. -/

namespace Sealloc

def generatorsSmallLengths : List Nat :=
  [512, 256, 300, 128, 64, 64, 72, 64, 112, 32, 60, 64, 24, 72, 32, 32, 16, 24, 52, 32, 16, 22,
   20, 12, 16, 24, 36, 12, 24, 16, 20, 16]

def generatorsSmall : List (List Nat) := [
  [1, 3, 5, 7, 9, 11, 13, 15, 17, 19, 21, 23, 25, 27, 29, 31, 33, 35, 37, 39, 41, 43, 45, 47, 49,
   51, 53, 55, 57, 59, 61, 63, 65, 67, 69, 71, 73, 75, 77, 79, 81, 83, 85, 87, 89, 91, 93, 95, 97,
   99, 101, 103, 105, 107, 109, 111, 113, 115, 117, 119, 121, 123, 125, 127, 129, 131, 133, 135,
   137, 139, 141, 143, 145, 147, 149, 151, 153, 155, 157, 159, 161, 163, 165, 167, 169, 171, 173,
   175, 177, 179, 181, 183, 185, 187, 189, 191, 193, 195, 197, 199, 201, 203, 205, 207, 209, 211,
   213, 215, 217, 219, 221, 223, 225, 227, 229, 231, 233, 235, 237, 239, 241, 243, 245, 247, 249,
   251, 253, 255, 257, 259, 261, 263, 265, 267, 269, 271, 273, 275, 277, 279, 281, 283, 285, 287,
   289, 291, 293, 295, 297, 299, 301, 303, 305, 307, 309, 311, 313, 315, 317, 319, 321, 323, 325,
   327, 329, 331, 333, 335, 337, 339, 341, 343, 345, 347, 349, 351, 353, 355, 357, 359, 361, 363,
   365, 367, 369, 371, 373, 375, 377, 379, 381, 383, 385, 387, 389, 391, 393, 395, 397, 399, 401,
   403, 405, 407, 409, 411, 413, 415, 417, 419, 421, 423, 425, 427, 429, 431, 433, 435, 437, 439,
   441, 443, 445, 447, 449, 451, 453, 455, 457, 459, 461, 463, 465, 467, 469, 471, 473, 475, 477,
   479, 481, 483, 485, 487, 489, 491, 493, 495, 497, 499, 501, 503, 505, 507, 509, 511, 513, 515,
   517, 519, 521, 523, 525, 527, 529, 531, 533, 535, 537, 539, 541, 543, 545, 547, 549, 551, 553,
   555, 557, 559, 561, 563, 565, 567, 569, 571, 573, 575, 577, 579, 581, 583, 585, 587, 589, 591,
   593, 595, 597, 599, 601, 603, 605, 607, 609, 611, 613, 615, 617, 619, 621, 623, 625, 627, 629,
   631, 633, 635, 637, 639, 641, 643, 645, 647, 649, 651, 653, 655, 657, 659, 661, 663, 665, 667,
   669, 671, 673, 675, 677, 679, 681, 683, 685, 687, 689, 691, 693, 695, 697, 699, 701, 703, 705,
   707, 709, 711, 713, 715, 717, 719, 721, 723, 725, 727, 729, 731, 733, 735, 737, 739, 741, 743,
   745, 747, 749, 751, 753, 755, 757, 759, 761, 763, 765, 767, 769, 771, 773, 775, 777, 779, 781,
   783, 785, 787, 789, 791, 793, 795, 797, 799, 801, 803, 805, 807, 809, 811, 813, 815, 817, 819,
   821, 823, 825, 827, 829, 831, 833, 835, 837, 839, 841, 843, 845, 847, 849, 851, 853, 855, 857,
   859, 861, 863, 865, 867, 869, 871, 873, 875, 877, 879, 881, 883, 885, 887, 889, 891, 893, 895,
   897, 899, 901, 903, 905, 907, 909, 911, 913, 915, 917, 919, 921, 923, 925, 927, 929, 931, 933,
   935, 937, 939, 941, 943, 945, 947, 949, 951, 953, 955, 957, 959, 961, 963, 965, 967, 969, 971,
   973, 975, 977, 979, 981, 983, 985, 987, 989, 991, 993, 995, 997, 999, 1001, 1003, 1005, 1007,
   1009, 1011, 1013, 1015, 1017, 1019, 1021, 1023],
  [1, 3, 5, 7, 9, 11, 13, 15, 17, 19, 21, 23, 25, 27, 29, 31, 33, 35, 37, 39, 41, 43, 45, 47, 49,
   51, 53, 55, 57, 59, 61, 63, 65, 67, 69, 71, 73, 75, 77, 79, 81, 83, 85, 87, 89, 91, 93, 95, 97,
   99, 101, 103, 105, 107, 109, 111, 113, 115, 117, 119, 121, 123, 125, 127, 129, 131, 133, 135,
   137, 139, 141, 143, 145, 147, 149, 151, 153, 155, 157, 159, 161, 163, 165, 167, 169, 171, 173,
   175, 177, 179, 181, 183, 185, 187, 189, 191, 193, 195, 197, 199, 201, 203, 205, 207, 209, 211,
   213, 215, 217, 219, 221, 223, 225, 227, 229, 231, 233, 235, 237, 239, 241, 243, 245, 247, 249,
   251, 253, 255, 257, 259, 261, 263, 265, 267, 269, 271, 273, 275, 277, 279, 281, 283, 285, 287,
   289, 291, 293, 295, 297, 299, 301, 303, 305, 307, 309, 311, 313, 315, 317, 319, 321, 323, 325,
   327, 329, 331, 333, 335, 337, 339, 341, 343, 345, 347, 349, 351, 353, 355, 357, 359, 361, 363,
   365, 367, 369, 371, 373, 375, 377, 379, 381, 383, 385, 387, 389, 391, 393, 395, 397, 399, 401,
   403, 405, 407, 409, 411, 413, 415, 417, 419, 421, 423, 425, 427, 429, 431, 433, 435, 437, 439,
   441, 443, 445, 447, 449, 451, 453, 455, 457, 459, 461, 463, 465, 467, 469, 471, 473, 475, 477,
   479, 481, 483, 485, 487, 489, 491, 493, 495, 497, 499, 501, 503, 505, 507, 509, 511],
  [1, 2, 3, 4, 5, 6, 7, 8, 9, 10, 12, 13, 14, 15, 16, 17, 18, 19, 20, 21, 23, 24, 25, 26, 27, 28,
   29, 30, 32, 34, 35, 36, 37, 38, 39, 40, 41, 42, 43, 45, 46, 47, 48, 49, 50, 51, 52, 53, 54, 56,
   57, 58, 59, 60, 61, 63, 64, 65, 67, 68, 69, 70, 71, 72, 73, 74, 75, 76, 78, 79, 80, 81, 82, 83,
   84, 85, 86, 87, 89, 90, 91, 92, 94, 95, 96, 97, 98, 100, 101, 102, 103, 104, 105, 106, 107,
   108, 109, 111, 112, 113, 114, 115, 116, 117, 118, 119, 120, 122, 123, 125, 126, 127, 128, 129,
   130, 131, 133, 134, 135, 136, 137, 138, 139, 140, 141, 142, 144, 145, 146, 147, 148, 149, 150,
   151, 152, 153, 156, 157, 158, 159, 160, 161, 162, 163, 164, 166, 167, 168, 169, 170, 171, 172,
   173, 174, 175, 177, 178, 179, 180, 181, 182, 183, 184, 185, 188, 189, 190, 191, 192, 193, 194,
   195, 196, 197, 199, 200, 201, 202, 203, 204, 205, 206, 207, 208, 210, 211, 212, 213, 214, 215,
   216, 218, 219, 221, 222, 223, 224, 225, 226, 227, 228, 229, 230, 232, 233, 234, 235, 236, 237,
   238, 239, 240, 241, 243, 244, 245, 246, 247, 249, 250, 251, 252, 254, 255, 256, 257, 258, 259,
   260, 261, 262, 263, 265, 266, 267, 268, 269, 270, 271, 272, 273, 274, 276, 277, 278, 280, 281,
   282, 283, 284, 285, 287, 288, 289, 290, 291, 292, 293, 294, 295, 296, 298, 299, 300, 301, 302,
   303, 304, 305, 306, 307, 309, 311, 312, 313, 314, 315, 316, 317, 318, 320, 321, 322, 323, 324,
   325, 326, 327, 328, 329, 331, 332, 333, 334, 335, 336, 337, 338, 339, 340],
  [1, 3, 5, 7, 9, 11, 13, 15, 17, 19, 21, 23, 25, 27, 29, 31, 33, 35, 37, 39, 41, 43, 45, 47, 49,
   51, 53, 55, 57, 59, 61, 63, 65, 67, 69, 71, 73, 75, 77, 79, 81, 83, 85, 87, 89, 91, 93, 95, 97,
   99, 101, 103, 105, 107, 109, 111, 113, 115, 117, 119, 121, 123, 125, 127, 129, 131, 133, 135,
   137, 139, 141, 143, 145, 147, 149, 151, 153, 155, 157, 159, 161, 163, 165, 167, 169, 171, 173,
   175, 177, 179, 181, 183, 185, 187, 189, 191, 193, 195, 197, 199, 201, 203, 205, 207, 209, 211,
   213, 215, 217, 219, 221, 223, 225, 227, 229, 231, 233, 235, 237, 239, 241, 243, 245, 247, 249,
   251, 253, 255],
  [1, 5, 7, 11, 13, 19, 23, 25, 29, 31, 35, 37, 41, 43, 47, 49, 53, 55, 59, 61, 65, 67, 71, 73,
   77, 79, 83, 89, 91, 95, 97, 101, 103, 107, 109, 113, 115, 121, 125, 127, 131, 133, 137, 139,
   143, 145, 149, 151, 155, 157, 161, 163, 167, 169, 173, 175, 179, 181, 185, 191, 193, 197, 199,
   203],
  [1, 3, 7, 9, 11, 13, 19, 21, 23, 27, 29, 31, 33, 37, 39, 41, 43, 47, 49, 53, 57, 59, 61, 63, 67,
   69, 71, 73, 77, 79, 81, 83, 87, 89, 91, 93, 97, 99, 101, 103, 107, 109, 111, 113, 117, 121,
   123, 127, 129, 131, 133, 137, 139, 141, 143, 147, 149, 151, 157, 159, 161, 163, 167, 169],
  [1, 3, 5, 7, 9, 11, 13, 15, 17, 19, 21, 23, 25, 27, 29, 31, 33, 35, 37, 39, 41, 43, 45, 47, 49,
   51, 53, 55, 57, 59, 61, 63, 65, 67, 69, 71, 75, 77, 79, 81, 83, 85, 87, 89, 91, 93, 95, 97, 99,
   101, 103, 105, 107, 109, 111, 113, 115, 117, 119, 121, 123, 125, 127, 129, 131, 133, 135, 137,
   139, 141, 143, 145],
  [1, 3, 5, 7, 9, 11, 13, 15, 17, 19, 21, 23, 25, 27, 29, 31, 33, 35, 37, 39, 41, 43, 45, 47, 49,
   51, 53, 55, 57, 59, 61, 63, 65, 67, 69, 71, 73, 75, 77, 79, 81, 83, 85, 87, 89, 91, 93, 95, 97,
   99, 101, 103, 105, 107, 109, 111, 113, 115, 117, 119, 121, 123, 125, 127],
  [1, 2, 3, 4, 5, 6, 7, 8, 9, 10, 11, 12, 13, 14, 15, 16, 17, 18, 19, 20, 21, 22, 23, 24, 25, 26,
   27, 28, 29, 30, 31, 32, 33, 34, 35, 36, 37, 38, 39, 40, 41, 42, 43, 44, 45, 46, 47, 48, 49, 50,
   51, 52, 53, 54, 55, 56, 57, 58, 59, 60, 61, 62, 63, 64, 65, 66, 67, 68, 69, 70, 71, 72, 73, 74,
   75, 76, 77, 78, 79, 80, 81, 82, 83, 84, 85, 86, 87, 88, 89, 90, 91, 92, 93, 94, 95, 96, 97, 98,
   99, 100, 101, 102, 103, 104, 105, 106, 107, 108, 109, 110, 111, 112],
  [1, 5, 7, 11, 13, 19, 23, 25, 29, 31, 35, 37, 41, 43, 47, 49, 53, 55, 59, 61, 65, 67, 71, 73,
   77, 79, 83, 89, 91, 95, 97, 101],
  [1, 2, 4, 5, 7, 8, 10, 11, 13, 14, 16, 17, 19, 20, 22, 23, 25, 26, 28, 29, 32, 34, 35, 37, 38,
   40, 41, 43, 44, 46, 47, 49, 50, 52, 53, 55, 56, 58, 59, 61, 64, 65, 67, 68, 70, 71, 73, 74, 76,
   77, 79, 80, 82, 83, 85, 86, 88, 89, 91, 92],
  [1, 2, 3, 4, 6, 7, 8, 9, 11, 12, 13, 14, 16, 18, 19, 21, 22, 23, 24, 26, 27, 28, 29, 31, 32, 33,
   36, 37, 38, 39, 41, 42, 43, 44, 46, 47, 48, 49, 52, 53, 54, 56, 57, 58, 59, 61, 62, 63, 64, 66,
   67, 69, 71, 72, 73, 74, 76, 77, 78, 79, 81, 82, 83, 84],
  [1, 5, 7, 11, 17, 19, 23, 25, 29, 31, 35, 37, 41, 43, 47, 49, 53, 55, 59, 61, 67, 71, 73, 77],
  [1, 2, 3, 4, 5, 6, 7, 8, 9, 10, 11, 12, 13, 14, 15, 16, 17, 18, 19, 20, 21, 22, 23, 24, 25, 26,
   27, 28, 29, 30, 31, 32, 33, 34, 35, 36, 37, 38, 39, 40, 41, 42, 43, 44, 45, 46, 47, 48, 49, 50,
   51, 52, 53, 54, 55, 56, 57, 58, 59, 60, 61, 62, 63, 64, 65, 66, 67, 68, 69, 70, 71, 72],
  [1, 3, 5, 7, 9, 11, 13, 15, 19, 21, 23, 25, 27, 29, 31, 33, 35, 37, 39, 41, 43, 45, 47, 49, 53,
   55, 57, 59, 61, 63, 65, 67],
  [1, 3, 5, 7, 9, 11, 13, 15, 17, 19, 21, 23, 25, 27, 29, 31, 33, 35, 37, 39, 41, 43, 45, 47, 49,
   51, 53, 55, 57, 59, 61, 63],
  [1, 7, 11, 13, 17, 19, 23, 29, 31, 37, 41, 43, 47, 49, 53, 59],
  [1, 3, 5, 9, 11, 13, 15, 17, 19, 23, 25, 27, 29, 31, 33, 37, 39, 41, 43, 45, 47, 51, 53, 55],
  [1, 2, 3, 4, 5, 6, 7, 8, 9, 10, 11, 12, 13, 14, 15, 16, 17, 18, 19, 20, 21, 22, 23, 24, 25, 26,
   27, 28, 29, 30, 31, 32, 33, 34, 35, 36, 37, 38, 39, 40, 41, 42, 43, 44, 45, 46, 47, 48, 49, 50,
   51, 52],
  [1, 2, 4, 5, 7, 8, 10, 11, 13, 14, 16, 19, 20, 22, 23, 25, 26, 28, 29, 31, 32, 35, 37, 38, 40,
   41, 43, 44, 46, 47, 49, 50],
  [1, 5, 7, 11, 13, 17, 19, 23, 25, 29, 31, 35, 37, 41, 43, 47],
  [1, 3, 5, 7, 9, 11, 13, 15, 17, 19, 21, 25, 27, 29, 31, 33, 35, 37, 39, 41, 43, 45],
  [1, 3, 5, 7, 9, 13, 15, 17, 19, 21, 23, 25, 27, 29, 31, 35, 37, 39, 41, 43],
  [1, 5, 11, 13, 17, 19, 23, 25, 29, 31, 37, 41],
  [1, 3, 7, 9, 11, 13, 17, 19, 21, 23, 27, 29, 31, 33, 37, 39],
  [1, 2, 4, 5, 7, 8, 10, 11, 14, 16, 17, 19, 20, 22, 23, 25, 28, 29, 31, 32, 34, 35, 37, 38],
  [1, 2, 3, 4, 5, 6, 7, 8, 9, 10, 11, 12, 13, 14, 15, 16, 17, 18, 19, 20, 21, 22, 23, 24, 25, 26,
   27, 28, 29, 30, 31, 32, 33, 34, 35, 36],
  [1, 5, 7, 11, 13, 17, 19, 23, 25, 29, 31, 35],
  [1, 2, 3, 4, 6, 8, 9, 11, 12, 13, 16, 17, 18, 19, 22, 23, 24, 26, 27, 29, 31, 32, 33, 34],
  [1, 3, 5, 7, 9, 11, 13, 15, 19, 21, 23, 25, 27, 29, 31, 33],
  [1, 2, 4, 5, 7, 8, 10, 13, 14, 16, 17, 19, 20, 23, 25, 26, 28, 29, 31, 32],
  [1, 3, 5, 7, 9, 11, 13, 15, 17, 19, 21, 23, 25, 27, 29, 31]
]

def generatorsMediumLengths : List Nat := [8, 4, 2, 1]

def generatorsMedium : List (List Nat) := [
  [1, 3, 5, 7, 9, 11, 13, 15],
  [1, 3, 5, 7],
  [1, 3],
  [1]
]

/-- The entry that the random value `rand` selects in the row of class `idx`. -/
def generatorAt (lengths : List Nat) (table : List (List Nat)) (idx rand : Nat) : Nat :=
  (table.getD idx []).getD (rand % lengths.getD idx 0) 0

/-- The generator that `run_init` picks for a region size. -/
def pickGenerator (regSize rand : Nat) : Nat :=
  if isSizeSmall regSize then
    generatorAt generatorsSmallLengths generatorsSmall (sizeToIdxSmall regSize) rand
  else if isSizeMedium regSize then
    generatorAt generatorsMediumLengths generatorsMedium (sizeToIdxMedium regSize) rand
  else 1

/-- Every row has its listed length, and its entries are 16-bit units modulo the number of
regions. -/
def GeneratorRows (lengths : List Nat) (table : List (List Nat)) (elems : Nat → Nat) : Prop :=
  ∀ idx < table.length, 0 < lengths.getD idx 0 ∧
    lengths.getD idx 0 ≤ (table.getD idx []).length ∧
    ∀ gen ∈ table.getD idx [], Nat.gcd gen (elems idx) = 1 ∧ gen < 2 ^ 16

/-- The check of a row that `GeneratorRows` asks for, on booleans. -/
def rowChecked (len : Nat) (row : List Nat) (elems : Nat) : Bool :=
  Nat.ble 1 len && Nat.ble len row.length &&
    row.all fun gen => Nat.beq (Nat.gcd gen elems) 1 && Nat.blt gen 65536

theorem GeneratorRows.of_checked {lengths : List Nat} {table : List (List Nat)}
    {elems : Nat → Nat}
    (checked : ∀ idx < table.length,
      rowChecked (lengths.getD idx 0) (table.getD idx []) (elems idx) = true) :
    GeneratorRows lengths table elems := by
  intro idx inside
  have row := checked idx inside
  simp only [rowChecked, Bool.and_eq_true, Nat.ble_eq, List.all_eq_true, Nat.beq_eq,
    Nat.blt_eq] at row
  exact ⟨row.1.1, row.1.2, row.2⟩

theorem generatorsSmall_rows : GeneratorRows generatorsSmallLengths generatorsSmall classElems :=
  .of_checked (by decide +kernel)

theorem generatorsMedium_rows :
    GeneratorRows generatorsMediumLengths generatorsMedium fun k => classElems (32 + k) :=
  .of_checked (by decide +kernel)

theorem getD_mem {row : List Nat} {i : Nat} (inside : i < row.length) : row.getD i 0 ∈ row := by
  rw [List.getD_eq_getElem?_getD, List.getElem?_eq_getElem inside, Option.getD_some]
  exact List.getElem_mem inside

theorem generatorAt_unit {lengths : List Nat} {table : List (List Nat)} {elems : Nat → Nat}
    (rows : GeneratorRows lengths table elems) {idx : Nat} (inside : idx < table.length)
    (rand : Nat) : Nat.gcd (generatorAt lengths table idx rand) (elems idx) = 1 ∧
      generatorAt lengths table idx rand < 2 ^ 16 := by
  obtain ⟨positive, listed, units⟩ := rows idx inside
  have within : rand % lengths.getD idx 0 < (table.getD idx []).length :=
    lt_of_lt_of_le (Nat.mod_lt _ positive) listed
  apply units
  exact getD_mem within

theorem sizeToIdx_classSize : ∀ b < 43,
    (b < 32 → isSizeSmall (classSize b) ∧ sizeToIdxSmall (classSize b) = b) ∧
    (32 ≤ b → ¬ isSizeSmall (classSize b)) ∧
    (32 ≤ b → b < 36 → isSizeMedium (classSize b) ∧ sizeToIdxMedium (classSize b) = b - 32) ∧
    (36 ≤ b → ¬ isSizeMedium (classSize b) ∧ classElems b = 1) := by
  decide +kernel

/-- Whatever the random value, the generator of a class is a unit modulo its regions. -/
theorem pickGenerator_unit {b : Nat} (isClass : b < 43) (rand : Nat) :
    Nat.Coprime (pickGenerator (classSize b) rand) (classElems b) ∧
      pickGenerator (classSize b) rand < 2 ^ 16 := by
  obtain ⟨small, notSmall, medium, large⟩ := sizeToIdx_classSize b isClass
  unfold pickGenerator
  by_cases first : b < 32
  · obtain ⟨isSmall, idx⟩ := small first
    rw [if_pos isSmall, idx]
    exact generatorAt_unit generatorsSmall_rows first rand
  · rw [if_neg (notSmall (by omega))]
    by_cases second : b < 36
    · obtain ⟨isMedium, idx⟩ := medium (by omega) second
      rw [if_pos isMedium, idx]
      have unit := generatorAt_unit generatorsMedium_rows (show b - 32 < 4 by omega) rand
      rwa [show 32 + (b - 32) = b by omega] at unit
    · obtain ⟨notMedium, one⟩ := large (by omega)
      rw [if_neg notMedium, one]
      exact ⟨Nat.coprime_one_right 1, by norm_num⟩

end Sealloc
